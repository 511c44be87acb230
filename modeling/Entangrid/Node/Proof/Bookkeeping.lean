import Entangrid.Node.Proof.Step

/-!
# Operations that book and send

Requests, pushes, maintenance and the records of sessions, scores and rate limits: they change only
fields outside the core and the records, read the clock and hand messages to the network. A relation
that allows these three (`Books`) holds along all of them.
-/

namespace Entangrid

open Proc (Always Moves)

/-- A message handed to the network, votes and certificates apart. -/
def Effect.plainSend : Effect → Bool
  | .broadcast (.proposalVote _) | .broadcast (.quorumCertificate _) => false
  | .broadcast _ | .sendTo .. => true
  | _ => false

/-- The relation allows bookkeeping, readings of the clock and plain sends. -/
structure Books (R : Node → Node → Prop) : Prop where
  book : ∀ {n n' : Node}, n'.core = n.core → n'.records = n.records → R n n'
  readClock : ∀ n : Node, R n { n with clockReads := n.clockReads + 1 }
  send : ∀ (n : Node) {effect : Effect}, effect.plainSend = true → R n (n.withEffect effect)

variable {E : Env} {n : Node}

/-! ## What is booked -/

theorem refreshedScores_core : (refreshedScores E n).core = n.core := by
  simp only [refreshedScores]
  split_ifs
  · rfl
  · rfl
  · rfl

theorem refreshedScores_records : (refreshedScores E n).records = n.records := by
  simp only [refreshedScores]
  split_ifs
  · rfl
  · rfl
  · rfl

theorem recordSuccessfulSession_core {epoch : Epoch} {v peer : ValidatorId} :
    (recordSuccessfulSession E epoch v peer n).core = n.core := by
  unfold recordSuccessfulSession
  split_ifs <;> rfl

theorem recordSuccessfulSession_records {epoch : Epoch} {v peer : ValidatorId} :
    (recordSuccessfulSession E epoch v peer n).records = n.records := by
  unfold recordSuccessfulSession
  split_ifs <;> rfl

theorem recordFailedSession_records {epoch : Epoch} {v peer : ValidatorId} :
    (recordFailedSession E epoch v peer n).records = n.records := by
  unfold recordFailedSession
  split_ifs <;> rfl

theorem recordFailedSession_core {epoch : Epoch} {v peer : ValidatorId} :
    (recordFailedSession E epoch v peer n).core = n.core := by
  unfold recordFailedSession
  split_ifs <;> rfl

namespace Books

variable {R : Node → Node → Prop} [IsPreorder Node R] (hR : Books R)
include hR

/-! ## Parts -/

omit [IsPreorder Node R] in
theorem modify {f : Node → Node} (h : ∀ n, (f n).core = n.core ∧ (f n).records = n.records) :
    Always R (Proc.modify f : NodeM Unit) := .modify fun n => hR.book (h n).1 (h n).2

omit [IsPreorder Node R] in
theorem emit {effect : Effect} (h : effect.plainSend = true) :
    Always R (NodeM.emit effect) := .modify fun n => hR.send n h

theorem now : Always R (NodeM.now E) :=
  .read fun _ => .bind (.modify hR.readClock) fun _ => .pure _

theorem sendTo (peer : ValidatorId) (message : ProtocolMessage) :
    Always R (NodeM.sendTo E peer message) := .ite (hR.emit rfl) (.throw _)

/-! ## Sync -/

section Sync
variable (v : ValidatorId)

omit [IsPreorder Node R] in
theorem broadcastSyncStatus : Always R (broadcastSyncStatus E) := .read fun _ => hR.emit rfl

theorem requestLegacySyncFrom : Always R (requestLegacySyncFrom E v) :=
  .read fun _ => hR.sendTo _ _

theorem requestFollowupLegacySyncFrom : Always R (requestFollowupLegacySyncFrom E v) :=
  .read fun _ => hR.sendTo _ _

theorem requestSyncFrom : Always R (requestSyncFrom E v) :=
  .read fun _ => .ite (.read fun _ => hR.sendTo _ _) (hR.requestLegacySyncFrom v)

theorem requestBestExcluding (excluded : Option ValidatorId) :
    Always R (requestBestAvailableSyncFromAheadPeersExcluding E excluded) :=
  .read fun n => by
    split
    · exact .pure _
    · exact (hR.requestSyncFrom _).thenPure

theorem sendFullSnapshotTo : Always R (sendFullSnapshotTo E v) :=
  .read fun _ => .bind (.ofExcept _) fun _ => hR.sendTo _ _

theorem sendBestSyncTo (height : Nat) (tip : HashBytes) :
    Always R (sendBestSyncTo E v height tip) :=
  .read fun _ => .ite (.throw _) <| .bind (.ofExcept _) fun
    | some _ => hR.sendTo _ _
    | none => hR.sendFullSnapshotTo v

theorem sendBestCertifiedSyncTo : Always R (sendBestCertifiedSyncTo E v) :=
  .read fun n => by
    split
    · exact .pure _
    · split
      · exact .pure _
      · exact (hR.sendTo _ _).thenPure

theorem sendAnchoredSuffixSyncTo (anchor : SyncQcAnchor) :
    Always R (sendAnchoredSuffixSyncTo E v anchor) :=
  .read fun _ => .ite (.pure _) <| .bind (.ofExcept _) fun _ => by
    split
    · exact .pure _
    · exact hR.sendTo _ _

theorem pushBestSyncTo (height : Nat) (tip : HashBytes) :
    Always R (pushBestSyncTo E v height tip) := by
  refine .read fun n => .ite (.pure _) (.ite
    (.bind (hR.sendBestCertifiedSyncTo v) fun _ => .bind (.pure _) fun anchoredAt => ?_)
    (.bind (.pure _) fun anchoredAt => ?_))
  -- with a certified sync sent or not, the choice of the second message is the same
  all_goals
    cases anchoredAt with
    | some anchor =>
      exact .bind (hR.sendAnchoredSuffixSyncTo v anchor) fun _ => hR.modify fun _ => ⟨rfl, rfl⟩
    | none =>
      exact .bind (hR.sendBestSyncTo v height tip) fun _ => hR.modify fun _ => ⟨rfl, rfl⟩

theorem pushSyncToStalePeers : Always R (pushSyncToStalePeers E) :=
  .read fun _ => .forEach fun _ => .read fun _ => by
    split
    · exact .whenM (hR.pushBestSyncTo _ _ _)
    · exact .whenM (hR.sendFullSnapshotTo _)

theorem maybePushTipProgress : Always R (maybePushTipProgressToStalePeers E) :=
  .read fun _ => .whenM (hR.broadcastSyncStatus.bind fun _ => hR.pushSyncToStalePeers)

theorem announceCertifiedProgress : Always R (announceCertifiedProgress E) :=
  hR.broadcastSyncStatus.bind fun _ => hR.pushSyncToStalePeers.bind fun _ =>
    (hR.requestBestExcluding none).thenPure

theorem runSyncMaintenance : Always R (runSyncMaintenance E) := by
  refine .bind ?_ fun _ => hR.broadcastSyncStatus.bind fun _ =>
    hR.pushSyncToStalePeers.bind fun _ => .read fun _ =>
      .whenM (hR.requestBestExcluding none).thenPure
  have hrest (n : Node) (requested : Bool) : Always R (if requested = true then Pure.pure ()
      else NodeM.broadcast (.syncRequest E.me n.localSyncView.height n.localSyncView.tipHash)) :=
    .unlessM (hR.emit rfl)
  exact .read fun n => .ite (.bind (hR.requestBestExcluding none) (hrest n))
    (.bind (.pure _) (hrest n))

theorem syncRequestIsThrottled (height : Nat) (tip : HashBytes) :
    Always R (syncRequestIsThrottled E v height tip) :=
  .read fun _ => by
    split
    · exact .pure _
    · exact hR.now.thenPure

theorem maybeRepairStalePendingCertifiedChild (slot : Slot) :
    Always R (maybeRepairStalePendingCertifiedChild E slot) :=
  .read fun _ => by
    split
    · exact .pure _
    · exact .ite (.pure _) <| .ite
        (.bind (hR.requestLegacySyncFrom _) fun _ => (hR.requestBestExcluding _).thenPure)
        (hR.requestBestExcluding _).thenPure

theorem maybeBroadcastRecoverySyncStatus (slot : Slot) :
    Always R (maybeBroadcastRecoverySyncStatus E slot) :=
  .read fun _ => .ite (.pure _) <| hR.broadcastSyncStatus.bind fun _ =>
    .bind (hR.modify fun _ => ⟨rfl, rfl⟩) fun _ => .pure _

theorem maybeRequestRecoverySync (slot : Slot) :
    Always R (maybeRequestRecoverySyncFromAheadPeer E slot) :=
  .read fun _ => by
    split
    · exact .bind (hR.modify fun _ => ⟨rfl, rfl⟩) fun _ => .pure _
    · exact .ite (.pure _) <| (hR.requestSyncFrom _).bind fun _ =>
        .bind (hR.modify fun _ => ⟨rfl, rfl⟩) fun _ => .pure _

theorem handleCertifiedSyncRequest (request : ChunkedSyncRequest) :
    Always R (handleCertifiedSyncRequest E request) :=
  .read fun _ => (hR.sendTo _ _).bind fun _ => by
    split
    · exact hR.sendAnchoredSuffixSyncTo _ _
    · exact .pure _

theorem followUpIgnored (reason : CertifiedSyncIgnoreReason) :
    Always R (followUpIgnored E v reason) := .read fun _ => by
  cases reason with
  | unavailable =>
    exact .ite (hR.requestFollowupLegacySyncFrom v) <|
      (hR.requestBestExcluding _).bind fun _ => .unlessM (hR.requestFollowupLegacySyncFrom v)
  | sharedQcMismatch => exact hR.requestFollowupLegacySyncFrom v
  | staleSnapshot => exact .whenM (hR.requestFollowupLegacySyncFrom v)
  | emptyPayload => exact .pure _

end Sync

/-! ## Receipts, scores and sessions -/

theorem validateReceipt (receipt : RelayReceipt) : Always R (validateReceipt E receipt) :=
  .read fun _ => .ite (.pure _) <| by
    split
    · exact .pure _
    · exact .ite (.bind (hR.modify fun _ => ⟨rfl, rfl⟩) fun _ => .throw _) (.throw _)

theorem processedSlot : Always R (processedSlot E) :=
  .read fun _ => by
    split
    · exact .pure _
    · exact hR.now.thenPure

theorem currentEpoch : Always R (currentEpoch E) := hR.processedSlot.thenPure

theorem requestReceiptReconciliation (epoch : Epoch) :
    Always R (requestReceiptReconciliation E epoch) :=
  .unlessM (.forEach fun _ => hR.sendTo _ _)

theorem handleReceiptFetch (requesterId : ValidatorId) (epoch : Epoch) (validatorId : ValidatorId) :
    Always R (handleReceiptFetch E requesterId epoch validatorId) :=
  .read fun _ => hR.sendTo _ _

omit [IsPreorder Node R] in
theorem refreshServiceScores : Always R (refreshServiceScores E) :=
  hR.modify fun _ => ⟨refreshedScores_core, refreshedScores_records⟩

theorem handleSessionObserved (peer : ValidatorId) : Always R (handleSessionObserved E peer) :=
  .bind (hR.modify fun _ => ⟨rfl, rfl⟩) fun _ => hR.currentEpoch.bind fun _ =>
    hR.modify fun _ => ⟨recordSuccessfulSession_core, recordSuccessfulSession_records⟩

/-! ## Ticks and rate limits -/

theorem startupSyncBlocksProposal : Always R (startupSyncBlocksProposal E) :=
  .read fun _ => .ite (.pure _) <| .ite (.pure _) <| .ite (.pure _) <|
    .bind (hR.modify fun _ => ⟨rfl, rfl⟩) fun _ => .pure _

theorem broadcastHeartbeat (slot : Slot) (epoch : Epoch) :
    Always R (broadcastHeartbeat E slot epoch) :=
  .read fun _ => .unlessM <| .bind (hR.modify fun _ => ⟨rfl, rfl⟩) fun _ => hR.now.bind fun _ =>
    hR.emit rfl

theorem allowPeerMessage (v : ValidatorId) (payload : ProtocolMessage) :
    Always R (allowPeerMessage E v payload) := by
  unfold Entangrid.allowPeerMessage
  split
  · exact .pure _
  · exact hR.now.bind fun _ => .read fun _ =>
      .bind (hR.modify fun _ => ⟨rfl, rfl⟩) fun _ => .pure _

end Books

end Entangrid
