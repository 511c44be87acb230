import Entangrid.Node.Proof.Alignment
import Entangrid.Node.Proof.Progress
import Entangrid.Node.Proof.SnapshotExchange

/-!
# Sync exchanges without `consensus_v2`

A node that serves a request, answers a status or pushes to stale peers sends the chain it has, whole
or from a known block on. Whoever takes in the whole chain, or a segment that starts at the end of its
own, does not stand lower than the sender stood.
-/

namespace Entangrid

open LedgerState
open Proc (Always Moves)
open Relation (ReflTransGen)

variable {E : Env} {S : Set Block} {n n' : Node}

/-! ## What is served -/

/-- What exports are made from. -/
structure Trunk where
  ledger : LedgerState
  blocks : List Block
  receipts : List RelayReceipt
  proposalVotes : VoteMap
  quorumCertificates : BTreeMap HashBytes QuorumCertificate
  startupSyncBarrier : Bool

def Node.trunk (n : Node) : Trunk where
  ledger := n.ledger
  blocks := n.blocks
  receipts := n.receipts
  proposalVotes := n.proposalVotes
  quorumCertificates := n.quorumCertificates
  startupSyncBarrier := n.startupSyncBarrier

/-- A message with a chain is an export of the node. -/
def Exports (E : Env) (n : Node) : ProtocolMessage → Prop
  | .syncResponse _ chain => n.buildChainSnapshot E = .ok chain
  | .syncBlocks _ chain => ∃ height tip, n.buildChainSegment E height tip = .ok (some chain)
  | _ => True

theorem Exports.of_trunk (h : n'.trunk = n.trunk) {message : ProtocolMessage}
    (hm : Exports E n' message) : Exports E n message := by
  obtain ⟨hledger, hblocks, hreceipts, hvotes, hcertificates, hbarrier⟩ := Trunk.mk.inj h
  have hqc : n'.highestLocalQc = n.highestLocalQc := by
    simp only [Node.highestLocalQc, hblocks, hcertificates]
  have hview : n'.localSyncView = n.localSyncView := by
    simp only [Node.localSyncView, hqc, hledger, hbarrier]
  have hlen : n'.syncExportPrefixLen = n.syncExportPrefixLen := by
    rw [Node.syncExportPrefixLen, hview, hblocks, Node.syncExportPrefixLen]
  have hsnapshot : n'.syncExportSnapshot E = n.syncExportSnapshot E := by
    simp only [Node.syncExportSnapshot, hlen, hledger, hblocks]
  have hsupport (blocks : List Block) : n'.votesForBlocks blocks = n.votesForBlocks blocks := by
    rw [Node.votesForBlocks, hvotes, Node.votesForBlocks]
  cases message with
  | syncResponse _ chain =>
    show n.buildChainSnapshot E = _
    have hm : n'.buildChainSnapshot E = .ok chain := hm
    rw [← hm]
    simp only [Node.buildChainSnapshot, hsnapshot, hlen, hblocks, hreceipts, hsupport]
  | syncBlocks _ chain =>
    obtain ⟨height, tip, hm⟩ := hm
    refine ⟨height, tip, ?_⟩
    rw [← hm]
    simp only [Node.buildChainSegment, hsnapshot, hlen, hblocks, hreceipts, hsupport, hqc]
  | _ => trivial

/-- The trunk stays, and of chains only exports are sent. -/
structure Serves (E : Env) (n n' : Node) : Prop where
  trunk : n'.trunk = n.trunk
  sent : ∃ messages, n'.sent = messages ++ n.sent ∧ ∀ message ∈ messages, Exports E n message

instance : IsPreorder Node (Serves E) where
  refl n := ⟨rfl, [], rfl, by simp⟩
  trans a b c h h' := by
    obtain ⟨messages, hsent, hexports⟩ := h.sent
    obtain ⟨messages', hsent', hexports'⟩ := h'.sent
    refine ⟨h'.trunk.trans h.trunk, messages' ++ messages, ?_, fun message hm => ?_⟩
    · rw [hsent', hsent, List.append_assoc]
    · rcases List.mem_append.1 hm with hm | hm
      · exact (hexports' message hm).of_trunk h.trunk
      · exact hexports message hm

namespace Serves

theorem quiet (htrunk : n'.trunk = n.trunk) (heffects : n'.effects = n.effects) :
    Serves E n n' := by
  refine ⟨htrunk, [], ?_, by simp⟩
  rw [Node.sent, heffects]
  rfl

theorem say {message : ProtocolMessage} (htrunk : n'.trunk = n.trunk)
    (hsent : n'.sent = message :: n.sent) (h : Exports E n message) : Serves E n n' :=
  ⟨htrunk, [message], hsent, by simpa using h⟩

theorem modify {f : Node → Node} (h : ∀ n, (f n).trunk = n.trunk ∧ (f n).effects = n.effects) :
    Always (Serves E) (Proc.modify f : NodeM Unit) := fun n => Moves.modify (.quiet (h n).1 (h n).2)

theorem sendTo (peer : ValidatorId) {message : ProtocolMessage} (h : Exports E n message) :
    Moves (Serves E) (NodeM.sendTo E peer message) n := by
  unfold NodeM.sendTo
  split_ifs
  · exact Moves.modify (.say rfl rfl h)
  · exact Moves.throw _

theorem broadcast {message : ProtocolMessage} (h : ∀ n, Exports E n message) :
    Always (Serves E) (NodeM.broadcast message) := .modify fun n => .say rfl rfl (h n)

theorem logged {m : NodeM Unit} (h : Always (Serves E) m) :
    Always (Serves E) (Entangrid.logged m) := h.attempt.thenPure

theorem readClock : Serves E n { n with clockReads := n.clockReads + 1 } := .quiet rfl rfl

theorem now : Always (Serves E) (NodeM.now E) :=
  .read fun _ => .bind (.modify fun _ => readClock) fun _ => .pure _

end Serves

theorem sendFullSnapshotTo_serves (v : ValidatorId) :
    Always (Serves E) (sendFullSnapshotTo E v) := by
  intro n
  refine Moves.read (Moves.ofExcept_bind fun chain hchain => ?_)
  exact Serves.sendTo v hchain

theorem sendBestSyncTo_serves (v : ValidatorId) (height : Nat) (tip : HashBytes) :
    Always (Serves E) (sendBestSyncTo E v height tip) := by
  intro n
  refine Moves.read ?_
  split_ifs
  · exact Moves.throw _
  refine Moves.ofExcept_bind fun segment hsegment => ?_
  cases segment with
  | some chain => exact Serves.sendTo v ⟨height, tip, hsegment⟩
  | none => exact sendFullSnapshotTo_serves v n

theorem recordStatus_trunk (v : ValidatorId) (status : PeerSyncStatus) :
    (n.recordPeerSyncStatusWithSlot v status).trunk = n.trunk ∧
      (n.recordPeerSyncStatusWithSlot v status).effects = n.effects := by
  rw [Node.recordPeerSyncStatusWithSlot]
  split_ifs
  · exact ⟨rfl, rfl⟩
  · exact ⟨rfl, rfl⟩

theorem broadcastSyncStatus_serves : Always (Serves E) (broadcastSyncStatus E) :=
  .read fun _ => Serves.broadcast fun _ => trivial

theorem requestLegacySyncFrom_serves (v : ValidatorId) :
    Always (Serves E) (requestLegacySyncFrom E v) := by
  intro n
  exact Moves.read (Serves.sendTo v trivial)

section
variable (hv1 : E.v2 = false)
include hv1

theorem requestSyncFrom_serves (v : ValidatorId) : Always (Serves E) (requestSyncFrom E v) := by
  unfold requestSyncFrom
  simp only [hv1, Bool.false_and, Bool.false_eq_true, if_false]
  exact .read fun _ => requestLegacySyncFrom_serves v

theorem requestBestExcluding_serves (excluded : Option ValidatorId) :
    Always (Serves E) (requestBestAvailableSyncFromAheadPeersExcluding E excluded) :=
  .read fun n => by
    split
    · exact .pure _
    · exact (requestSyncFrom_serves hv1 _).thenPure

theorem pushBestSyncTo_serves (v : ValidatorId) (height : Nat) (tip : HashBytes) :
    Always (Serves E) (pushBestSyncTo E v height tip) := by
  unfold pushBestSyncTo
  simp only [hv1, Bool.false_eq_true, if_false]
  refine .read fun _ => .unlessM ?_
  intro s
  apply Moves.bind (Moves.pure none)
  intro anchoredAt s' hrun
  cases hrun
  exact Moves.bind (sendBestSyncTo_serves v height tip s) fun _ s' _ => Moves.modify (.quiet rfl rfl)

theorem pushSyncToStalePeers_serves : Always (Serves E) (pushSyncToStalePeers E) :=
  .read fun _ => .forEach fun _ => .read fun _ => by
    split
    · exact .whenM (pushBestSyncTo_serves hv1 _ _ _)
    · exact .whenM (sendFullSnapshotTo_serves _)

theorem runSyncMaintenance_serves : Always (Serves E) (runSyncMaintenance E) := by
  have hrest (n : Node) (requested : Bool) : Always (Serves E) (if requested = true then
      Pure.pure () else NodeM.broadcast
        (.syncRequest E.me n.localSyncView.height n.localSyncView.tipHash)) :=
    .unlessM (Serves.broadcast fun _ => trivial)
  refine .bind ?_ fun _ => broadcastSyncStatus_serves.bind fun _ =>
    (pushSyncToStalePeers_serves hv1).bind fun _ => .read fun _ =>
      .whenM (requestBestExcluding_serves hv1 none).thenPure
  exact .read fun n => .ite (.bind (requestBestExcluding_serves hv1 none) (hrest n))
    (.bind (.pure _) (hrest n))

theorem handleSyncStatus_serves (v : ValidatorId) (status : PeerSyncStatus) :
    Always (Serves E) (handleSyncStatus E v status) :=
  (Serves.modify fun _ => recordStatus_trunk v status).bind fun _ => .read fun _ =>
    .ite (Serves.logged (requestSyncFrom_serves hv1 v))
      (.whenM (Serves.logged (pushBestSyncTo_serves hv1 v _ _)))

omit hv1 in
theorem recordSyncRequestServed_serves (v : ValidatorId) (height : Nat) (tip : HashBytes) :
    Always (Serves E) (recordSyncRequestServed E v height tip) :=
  Serves.now.bind fun _ => Serves.modify fun _ => ⟨rfl, rfl⟩

theorem handleSyncRequest_serves (v : ValidatorId) (height : Nat) (tip : HashBytes) :
    Always (Serves E) (handleSyncRequest E v height tip) := by
  have hserve (throttled : Bool) : Always (Serves E) (if throttled = true then Pure.pure ()
      else if isForceFullSnapshotHint height tip = true then
        if (E.config.peers.any (·.validatorId == v)) = true then sendFullSnapshotTo E v
        else Proc.throw (.unknownPeer v)
      else do
        recordSyncRequestServed E v height tip
        if E.v2 = true then pushBestSyncTo E v height tip else sendBestSyncTo E v height tip) :=
    .unlessM <| .ite (.ite (sendFullSnapshotTo_serves v) (.throw _)) <|
      (recordSyncRequestServed_serves v height tip).bind fun _ =>
        .ite (pushBestSyncTo_serves hv1 v height tip) (sendBestSyncTo_serves v height tip)
  refine .bind (Serves.modify fun _ => recordStatus_trunk v _) fun _ => .ite (.bind (.pure _) hserve) (.bind ?_ hserve)
  refine .read fun n => ?_
  cases n.lastSyncRequestServed[v]? with
  | none => exact .pure _
  | some served => exact Serves.now.bind fun _ => .pure _

omit hv1 in
theorem allowPeerMessage_serves (v : ValidatorId) (payload : ProtocolMessage) :
    Always (Serves E) (allowPeerMessage E v payload) := by
  intro n
  unfold allowPeerMessage
  split
  · exact Moves.pure _
  · exact ⟨rfl, [], rfl, by simp⟩

/-- What makes a node serve its chain. -/
def Event.AsksForSync : Event → Prop
  | .syncTick => True
  | .received _ (.syncStatus ..) => True
  | .received _ (.syncRequest ..) => True
  | _ => False

theorem handleEvent_serves (fuel : Nat) {event : Event} (hevent : event.AsksForSync) :
    Always (Serves E) (handleEvent E fuel event) := by
  cases event with
  | syncTick => exact .whenM (runSyncMaintenance_serves hv1)
  | received sender payload =>
    have hdispatch : Always (Serves E) (dispatchMessage E fuel sender payload) := by
      cases payload with
      | syncStatus v height tip slot qcHash qcHeight anchors => exact handleSyncStatus_serves hv1 v _
      | syncRequest v height tip => exact handleSyncRequest_serves hv1 v height tip
      | _ => exact hevent.elim
    have hhandle : Always (Serves E) (handleProtocolMessage E fuel sender payload) := by
      refine (allowPeerMessage_serves sender payload).bind fun allowed => ?_
      exact .whenM hdispatch
    refine .bind ?_ fun _ => hhandle
    exact Serves.modify fun _ => ⟨rfl, rfl⟩
  | _ => exact hevent.elim

end

/-! ## Exports without votes and certificates -/

section
variable (hinert : Inert n)
include hinert

theorem Inert.votesForBlocks (blocks : List Block) : n.votesForBlocks blocks = [] := by
  apply List.eq_nil_iff_forall_not_mem.2
  intro vote hvote
  obtain ⟨h, v, -, hheld⟩ := Node.mem_votesForBlocks.1 hvote
  exact hinert.votes vote ⟨h, v, .inl hheld⟩

variable (hheight : n.ledger.snapshot.height = n.blocks.length)
include hheight

/-- A snapshot has the whole chain. -/
theorem Inert.snapshot_of_exports {v : ValidatorId} {chain : ChainSnapshot}
    (h : Exports E n (.syncResponse v chain)) : chain =
      { snapshot := n.ledger.snapshot, blocks := n.blocks, receipts := n.receipts
        proposalVotes := [] } := by
  have hwhole := buildChainSnapshot_whole (E := E) hinert.highestLocalQc hheight.ge
  rw [hinert.votesForBlocks] at hwhole
  exact (Except.ok.inj (hwhole.symm.trans h)).symm

omit hinert hheight in
/-- A segment leads to the snapshot it is built for, and starts at a block the chain has. -/
theorem built_segment_target {target : StateSnapshot} {blocks : List Block}
    {receipts : List RelayReceipt} {window height max : Nat} {tip : HashBytes} {chain : ChainSegment}
    (h : buildChainSegmentFromChain target blocks receipts window height tip max = some chain) :
    chain.targetSnapshot = target ∧ chain.receipts.Sublist receipts ∧
      tip = tipFrom empty_hash (blocks.take height) := by
  unfold buildChainSegmentFromChain at h
  split_ifs at h with hlength hzero
  · obtain ⟨expected, hexpected, h⟩ := Option.bind_eq_some_iff.1 h
    dsimp only at h
    split_ifs at h with htip
    obtain rfl := Option.some.inj h
    obtain rfl := Option.some.inj hexpected
    refine ⟨rfl, List.filter_sublist, ?_⟩
    rw [← not_not.1 htip, hzero]
    rfl
  · obtain ⟨expected, hexpected, h⟩ := Option.bind_eq_some_iff.1 h
    dsimp only at h
    split_ifs at h with htip
    obtain rfl := Option.some.inj h
    obtain ⟨block, hblock, rfl⟩ := Option.map_eq_some_iff.1 hexpected
    refine ⟨rfl, List.filter_sublist, ?_⟩
    rw [← not_not.1 htip, show height = height - 1 + 1 by omega]
    exact (HashChain.tipFrom_take_succ hblock).symm

/-- A segment has the chain from a block on. -/
theorem Inert.segment_of_exports {v : ValidatorId} {chain : ChainSegment}
    (h : Exports E n (.syncBlocks v chain)) :
    chain.targetSnapshot = n.ledger.snapshot ∧ chain.baseHeight < n.blocks.length ∧
      chain.baseTipHash = tipFrom empty_hash (n.blocks.take chain.baseHeight) ∧
      chain.blocks = n.blocks.drop chain.baseHeight ∧ chain.receipts.Sublist n.receipts ∧
      chain.proposalVotes = [] := by
  obtain ⟨height, tip, h⟩ := h
  have hlen : n.syncExportPrefixLen = n.blocks.length := by
    rw [syncExportPrefixLen_eq hinert.highestLocalQc]
    exact Nat.min_eq_right hheight.ge
  have hsnapshot : n.syncExportSnapshot E = .ok n.ledger.snapshot := if_pos hlen
  obtain ⟨snapshot, hexported, h⟩ := except_bind_ok.1 h
  obtain rfl := Except.ok.inj (hsnapshot.symm.trans hexported)
  rw [hlen, List.take_length] at h
  obtain ⟨built, hbuilt, rfl⟩ := Option.map_eq_some_iff.1 (Except.ok.inj h)
  obtain ⟨hlt, hbase, htip, hblocks⟩ := built_segment hbuilt
  obtain ⟨htarget, hreceipts, hknown⟩ := built_segment_target hbuilt
  rw [hbase, htip, hblocks, hknown]
  exact ⟨htarget, hlt, rfl, rfl, hreceipts, hinert.votesForBlocks _⟩

end

end Entangrid
