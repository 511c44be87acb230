import Entangrid.Node.Proof.Progress

/-!
# What leaves the chain where it is

Without `consensus_v2`, a node changes its ledger and its lists of blocks for a block that comes, for a
chain that comes and for a block it builds. Nothing else it handles touches them, as long as none of
its orphans continues the chain (`handleEvent_rests`).
-/

namespace Entangrid

open Proc (Always Moves)

/-- The ledger, the lists of blocks, the votes and the certificates. -/
structure Footing where
  ledger : LedgerState
  shelves : Shelves
  ballots : Ballots

def Node.footing (n : Node) : Footing where
  ledger := n.ledger
  shelves := n.shelves
  ballots := n.ballots

/-- There are no votes, and no orphan continues the chain. -/
structure Idle (n : Node) : Prop where
  inert : Inert n
  orphans : promotableOrphan n = none

/-- An idle node that builds no block stays where it is. -/
structure Rests (n n' : Node) : Prop where
  effects : n.effects <:+ n'.effects
  footing : n'.builtBlocks = n.builtBlocks → Idle n → n'.footing = n.footing

section
variable {E : Env} {n n' : Node}

/-! ## Footings -/

theorem Node.footing_ledger (h : n'.footing = n.footing) : n'.ledger = n.ledger :=
  congrArg Footing.ledger h

theorem Node.footing_shelves (h : n'.footing = n.footing) : n'.shelves = n.shelves :=
  congrArg Footing.shelves h

theorem Node.footing_of_core (h : n'.core = n.core) : n'.footing = n.footing := by
  unfold footing shelves ballots
  rw [core_ledger h, core_blocks h, core_pending h, core_orphanBlocks h, core_proposalVotes h,
    core_bufferedVotes h, core_certificates h]

theorem Inert.of_ballots (hn : Inert n) (h : n'.ballots = n.ballots) : Inert n' := by
  obtain ⟨hvotes, hbuffered, hcertificates⟩ := Ballots.mk.inj h
  refine ⟨fun vote hheld => ?_, fun blockHash => ?_⟩
  · unfold Node.Holds at hheld
    rw [hvotes, hbuffered] at hheld
    exact hn.votes vote hheld
  · rw [hcertificates]
    exact hn.certificates blockHash

theorem Idle.of_footing (hn : Idle n) (h : n'.footing = n.footing) : Idle n' where
  inert := hn.inert.of_ballots (congrArg Footing.ballots h)
  orphans := by
    have horphans : n'.orphanBlocks = n.orphanBlocks :=
      congrArg Shelves.orphanBlocks (Node.footing_shelves h)
    rw [promotableOrphan, horphans, Node.footing_ledger h]
    exact hn.orphans

theorem Node.builtBlocks_suffix (h : n.effects <:+ n'.effects) : n.builtBlocks <:+ n'.builtBlocks :=
  h.filterMap _

/-- Between two states with the same blocks built, no block is built. -/
theorem Node.builtBlocks_between {m : Node} (h : n.effects <:+ m.effects)
    (h' : m.effects <:+ n'.effects) (hbuilt : n'.builtBlocks = n.builtBlocks) :
    m.builtBlocks = n.builtBlocks ∧ n'.builtBlocks = m.builtBlocks := by
  have hfirst := builtBlocks_suffix h
  have hsecond := builtBlocks_suffix h'
  have hsame : m.builtBlocks = n.builtBlocks := by
    apply (hfirst.eq_of_length_le _).symm
    rw [← hbuilt]
    exact hsecond.length_le
  exact ⟨hsame, hbuilt.trans hsame.symm⟩

instance : IsPreorder Node Rests where
  refl _ := ⟨List.suffix_refl _, fun _ _ => rfl⟩
  trans n m n' h h' := by
    refine ⟨h.effects.trans h'.effects, fun hbuilt hn => ?_⟩
    obtain ⟨hfirst, hsecond⟩ := Node.builtBlocks_between h.effects h'.effects hbuilt
    have hm := h.footing hfirst hn
    exact (h'.footing hsecond (hn.of_footing hm)).trans hm

namespace Rests

theorem of_footing (heffects : n.effects <:+ n'.effects) (h : n'.footing = n.footing) :
    Rests n n' := ⟨heffects, fun _ _ => h⟩

theorem of_core (h : n'.core = n.core) : Rests n n' := by
  refine .of_footing ?_ (Node.footing_of_core h)
  rw [Node.core_effects h]

theorem books : Books Rests where
  book hcore _ := .of_core hcore
  readClock _ := .of_footing (List.suffix_refl _) rfl
  send _ _ _ := .of_footing (List.suffix_cons _ _) rfl

theorem modify {f : Node → Node} (heffects : ∀ n, n.effects <:+ (f n).effects)
    (h : ∀ n, (f n).footing = n.footing) : Always Rests (Proc.modify f : NodeM Unit) :=
  .modify fun n => .of_footing (heffects n) (h n)

theorem emit (effect : Effect) : Always Rests (NodeM.emit effect) :=
  modify (fun _ => List.suffix_cons _ _) fun _ => rfl

theorem logged {m : NodeM Unit} (h : Always Rests m) : Always Rests (Entangrid.logged m) :=
  h.attempt.thenPure

/-- It is enough to look at idle nodes. -/
theorem of_stepwise {α : Type} {m : NodeM α} (hm : Stepwise E {} m)
    (h : ∀ n, Idle n → Moves (fun n n' => n'.builtBlocks = n.builtBlocks → n'.footing = n.footing)
      m n) : Always Rests m := by
  intro n
  have heffects : Moves (fun n n' => n.effects <:+ n'.effects) m n :=
    (hm n).mono fun _ hsteps => (hsteps (Source.covers_of_univ rfl rfl n)).effects_suffix
  by_cases hn : Idle n
  · exact (heffects.and (h n hn)).mono fun _ h => ⟨h.1, fun hbuilt _ => h.2 hbuilt⟩
  · exact heffects.mono fun _ h => ⟨h, fun _ hidle => absurd hidle hn⟩

end Rests

end

/-! ## Receipts and transactions -/

section
variable {E : Env}

theorem storeReceipt_rests (receipt : RelayReceipt) : Always Rests (storeReceipt E receipt) := by
  refine (Rests.books.validateReceipt receipt).attempt.bind fun result => ?_
  cases result with
  | error e => exact .pure _
  | ok _ =>
    intro n
    obtain ⟨isNew, hrun⟩ := run_persistReceipt (E := E) (n := n) receipt
    unfold Moves
    rw [hrun]
    refine .of_footing ?_ rfl
    unfold Node.withReceipt ReceiptBook.persist
    split_ifs
    · exact List.suffix_refl _
    · exact List.suffix_refl _
    · exact List.suffix_cons _ _

theorem maybeIssueReceipt_rests (source destination : ValidatorId) (messageClass : MessageClass)
    (slot : Slot) (transcriptDigest byteHash : HashBytes) (sequenceNumber : Nat) :
    Always Rests (maybeIssueReceipt E source destination messageClass slot transcriptDigest byteHash
      sequenceNumber) := by
  unfold maybeIssueReceipt
  refine .unlessM (.bind (.ofExcept _) fun signature => ?_)
  refine (Rests.emit _).bind fun _ => .bind (.ofExcept _) fun _ => ?_
  exact (storeReceipt_rests _).bind fun _ => .whenM (Rests.emit _)

theorem handleTransaction_rests (transaction : SignedTransaction) (sender : ValidatorId)
    (localIngress : Bool) : Always Rests (handleTransaction E transaction sender localIngress) := by
  refine .read fun n => .unlessM (.bind (.ofExcept _) fun _ => ?_)
  refine (Rests.modify (f := addTransaction transaction) (fun _ => List.suffix_refl _)
    fun _ => rfl).bind fun _ => ?_
  refine (Rests.emit _).bind fun _ => Rests.books.processedSlot.bind fun slot => ?_
  exact (maybeIssueReceipt_rests _ _ _ _ _ _ _).bind fun _ => .whenM (Rests.emit _)

theorem processInbox_rests (files : List InboxFile) : Always Rests (processInbox E files) := by
  refine .bind (.ofExcept _) fun transactions => .forEach fun entry => ?_
  obtain ⟨_, transaction⟩ := entry
  exact (handleTransaction_rests _ _ _).attempt.thenPure

/-! ## Sync -/

theorem recordStatus_rests (v : ValidatorId) (status : PeerSyncStatus) :
    Always Rests (Proc.modify (·.recordPeerSyncStatusWithSlot v status) : NodeM Unit) :=
  .modify fun _ => .of_core (recordPeerSyncStatusWithSlot_core v status)

theorem handleSyncStatus_rests (v : ValidatorId) (status : PeerSyncStatus) :
    Always Rests (handleSyncStatus E v status) :=
  (recordStatus_rests v status).bind fun _ => .read fun _ =>
    .ite (Rests.logged (Rests.books.requestSyncFrom v))
      (.whenM (Rests.logged (Rests.books.pushBestSyncTo v _ _)))

theorem handleSyncRequest_rests (v : ValidatorId) (height : Nat) (tip : HashBytes) :
    Always Rests (handleSyncRequest E v height tip) := by
  have hserved : Always Rests (recordSyncRequestServed E v height tip) :=
    Rests.books.now.bind fun _ => Rests.modify (fun _ => List.suffix_refl _) fun _ => rfl
  have hserve (throttled : Bool) : Always Rests (if throttled = true then Pure.pure ()
      else if isForceFullSnapshotHint height tip = true then
        if (E.config.peers.any (·.validatorId == v)) = true then sendFullSnapshotTo E v
        else Proc.throw (.unknownPeer v)
      else do
        recordSyncRequestServed E v height tip
        if E.v2 = true then pushBestSyncTo E v height tip else sendBestSyncTo E v height tip) :=
    .unlessM <| .ite (.ite (Rests.books.sendFullSnapshotTo v) (.throw _)) <| hserved.bind fun _ =>
      .ite (Rests.books.pushBestSyncTo v height tip) (Rests.books.sendBestSyncTo v height tip)
  refine .bind (show Always Rests (Proc.modify (·.recordPeerSyncStatus v height tip none 0 [])) from
    fun n => recordStatus_rests v _ n) fun _ => ?_
  exact .ite (.bind (.pure _) hserve)
    ((Rests.books.syncRequestIsThrottled v height tip).bind hserve)

/-! ## Slot ticks -/

section
variable (fuel : Nat)

/-- No orphan of an idle node is promoted. -/
theorem tryPromoteOrphans_rests (rounds : Nat) : Always Rests (tryPromoteOrphans E fuel rounds) := by
  refine Rests.of_stepwise ((Acts.handles trivial trivial).tryPromoteOrphans fuel rounds) fun n hn => ?_
  cases rounds with
  | zero => exact Moves.outOfFuel
  | succ rounds =>
    refine Moves.read ?_
    rw [hn.orphans]
    exact fun _ => rfl

/-- Whoever proposes a new block has built one. -/
theorem proposeNewBlock_rests (slot : Slot) :
    Always Rests (proposeNewBlock E fuel slot (E.consensus.epochForSlot slot)) := by
  refine Rests.of_stepwise ((Acts.handles trivial trivial).proposeNewBlock fuel rfl) fun n hn => ?_
  refine Moves.read ?_
  -- reading the clock and a failure to build change nothing; what follows has the block built
  unfold Moves
  rw [Proc.run_bind_of_ok (show (NodeM.now E).run n =
    .ok (E.clock n.clockReads) { n with clockReads := n.clockReads + 1 } from rfl)]
  cases hbuild : buildProposal E n slot (E.consensus.epochForSlot slot) (E.clock n.clockReads) with
  | error e => exact fun _ => rfl
  | ok block =>
    set m : Node := { n with clockReads := n.clockReads + 1 }
    have hrest : Stepwise E {} (do
        let acceptance ← acceptBlock E fuel block true
        let n ← Proc.get
        if acceptance = .accepted then
          tryPromoteOrphans E fuel fuel
          NodeM.broadcast (.blockProposal block)
        else if acceptance = .orphan && n.isPendingCertifiedHeadBlock block then
          NodeM.broadcast (.blockProposal block)
        else pure ()) := by
      have hhandles : Handles E {} (Acts E {}) := Acts.handles trivial trivial
      refine .bind (fun s => hhandles.accept fuel true ⟨trivial, .inl trivial⟩) fun acceptance => ?_
      exact .read fun _ => .ite (.bind (hhandles.tryPromoteOrphans fuel fuel) fun _ =>
        .emit fun _ => trivial) (.whenM (.emit fun _ => trivial))
    refine Out.Moved.from (hrest (m.withEffect (.blockBuilt block))) fun s hsteps hbuilt => ?_
    have hsuffix := (hsteps (Source.covers_of_univ rfl rfl _)).effects_suffix
    have hlength := (Node.builtBlocks_suffix hsuffix).length_le
    rw [hbuilt] at hlength
    have hone : (m.withEffect (.blockBuilt block)).builtBlocks = block :: n.builtBlocks := rfl
    rw [hone, List.length_cons] at hlength
    omega

section
variable (hv1 : E.v2 = false)
include hv1

theorem maybeProposeBlock_rests (slot : Slot) :
    Always Rests (maybeProposeBlock E fuel slot (E.consensus.epochForSlot slot)) := by
  refine .read fun _ => .unlessM <| Rests.books.startupSyncBlocksProposal.bind fun _ => .unlessM <|
    .read fun _ => .unlessM <| .bind (.modify fun _ => .of_core rfl) fun _ => ?_
  split
  · -- no vote is cast
    refine .bind ?_ fun _ => Rests.emit _
    cases fuel with
    | zero => exact .outOfFuel
    | succ fuel =>
      show Always Rests (if !E.v2 then Pure.pure () else _)
      rw [hv1]
      exact .pure _
  · exact proposeNewBlock_rests fuel slot

omit fuel in
theorem enterEpoch_rests (epoch : Epoch) (isLiveSlot : Bool) :
    Always Rests (enterEpoch E epoch isLiveSlot) := by
  have hrefresh : refreshRecentServiceAttestations E epoch = Pure.pure () := by
    simp [refreshRecentServiceAttestations, hv1]
  have hrest : Always Rests (if epoch > 2 then refreshRecentServiceAttestations E epoch
      else Pure.pure ()) := by
    rw [hrefresh]
    exact .whenM (.pure _)
  exact .read fun _ => .unlessM <| .bind (.modify fun _ => .of_core rfl) fun _ => .whenM <|
    .ite ((Rests.books.requestReceiptReconciliation _).bind fun _ => hrest) hrest

theorem processSlot_rests (currentSlot slot : Slot) :
    Always Rests (processSlot E fuel currentSlot slot) := by
  have hpropose : Always Rests (do
      maybeProposeBlock E fuel slot (E.consensus.epochForSlot slot)
      tryPromoteOrphans E fuel fuel) :=
    (maybeProposeBlock_rests fuel hv1 slot).bind fun _ => tryPromoteOrphans_rests fuel fuel
  have hrepair : Always Rests (do
      if E.v2 = true then
        let _ ← maybeRepairStalePendingCertifiedChild E slot
        Pure.pure ()
      else Pure.pure ()
      maybeProposeBlock E fuel slot (E.consensus.epochForSlot slot)
      tryPromoteOrphans E fuel fuel) :=
    .ite ((Rests.books.maybeRepairStalePendingCertifiedChild slot).bind fun _ => hpropose) hpropose
  exact .bind (.modify fun _ => .of_core rfl) fun _ => Rests.books.refreshServiceScores.bind fun _ =>
    (enterEpoch_rests hv1 _ _).bind fun _ => .whenM <| (Rests.books.broadcastHeartbeat _ _).bind
      fun _ => .read fun _ => .ite ((Rests.books.maybeBroadcastRecoverySyncStatus slot).bind fun _ =>
        (Rests.books.maybeRequestRecoverySync slot).bind fun _ => hrepair) hrepair

theorem processSlotTick_rests : Always Rests (processSlotTick E fuel) :=
  Rests.books.now.bind fun _ => .read fun _ => .unlessM <| .forEach (processSlot_rests fuel hv1 _)

end

end

/-! ## Events -/

/-- A message with a block or a chain of blocks. -/
def Event.bringsBlocks : Event → Bool
  | .received _ (.blockProposal _) | .received _ (.syncResponse _ _)
  | .received _ (.syncBlocks _ _) => true
  | _ => false

section
variable (hv1 : E.v2 = false) (fuel : Nat)
include hv1

theorem dispatchMessage_rests (sender : ValidatorId) {payload : ProtocolMessage}
    (h : (Event.received sender payload).bringsBlocks = false) :
    Always Rests (dispatchMessage E fuel sender payload) := by
  -- what is dropped does nothing
  have hdropped (m : NodeM Unit) : Always Rests (if E.v2 then m else Pure.pure ()) := by
    rw [hv1]
    exact .pure _
  cases payload with
  | transactionBroadcast tx => exact Rests.logged (handleTransaction_rests tx sender false)
  | blockProposal | syncResponse | syncBlocks => cases h
  | proposalVote | quorumCertificate | certifiedSyncRequest | certifiedSyncResponse
  | serviceAttestation | serviceAggregate => exact hdropped _
  | syncStatus v => exact handleSyncStatus_rests v _
  | syncRequest v height tip => exact handleSyncRequest_rests v height tip
  | heartbeatPulse pulse => exact maybeIssueReceipt_rests _ _ _ _ _ _ _
  | relayReceipt receipt =>
    exact (storeReceipt_rests receipt).bind fun _ => .whenM (Rests.emit _)
  | receiptFetch v epoch w => exact Rests.books.handleReceiptFetch v epoch w
  | receiptResponse => exact .forEach fun receipt => (storeReceipt_rests receipt).thenPure

/-- **An idle node stays where it is,** unless a block comes or it builds one. -/
theorem handleEvent_rests {event : Event} (h : event.bringsBlocks = false) :
    Always Rests (handleEvent E fuel event) := by
  cases event with
  | slotTick => exact processSlotTick_rests fuel hv1
  | inboxTick files => exact processInbox_rests files
  | metricsTick => exact Rests.books.refreshServiceScores
  | syncTick => exact .whenM Rests.books.runSyncMaintenance
  | received sender payload =>
    refine .bind (.modify fun _ => .of_core rfl) fun _ => ?_
    exact (Rests.books.allowPeerMessage sender payload).bind fun _ =>
      .whenM (dispatchMessage_rests hv1 fuel sender h)
  | sessionObserved peer => exact .whenM (Rests.books.handleSessionObserved peer)
  | sessionFailed peer =>
    refine .bind (.modify fun _ => .of_core rfl) fun _ => ?_
    cases peer with
    | none => exact .pure _
    | some peer =>
      exact .whenM <| Rests.books.currentEpoch.bind fun _ =>
        .modify fun _ => .of_core recordFailedSession_core
  | inboundSessionDropped => exact .pure _

end

end

end Entangrid
