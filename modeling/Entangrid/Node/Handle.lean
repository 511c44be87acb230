import Entangrid.Node.Import

/-!
# Messages, ticks and the inbox

The handlers of the run loop: protocol messages, slot ticks with the node's own proposals, the
inbox, sync maintenance and session events.
-/

namespace Entangrid

open NodeM

/-! ## Rate limits -/

def peerMessageWindowMillis : Nat := 5000

def PeerMessageClass.limit : PeerMessageClass → Nat
  | .syncControl => 24
  | .transactionGossip => 256
  | .receiptGossip => 512

def classifyPeerMessage : ProtocolMessage → Option PeerMessageClass
  | .syncStatus .. | .syncRequest .. | .certifiedSyncRequest _ | .receiptFetch .. =>
    some .syncControl
  | .transactionBroadcast _ => some .transactionGossip
  | .relayReceipt _ => some .receiptGossip
  | _ => none

namespace PeerMessageWindow

def count (w : PeerMessageWindow) : PeerMessageClass → Nat
  | .syncControl => w.syncControlMessages
  | .transactionGossip => w.transactionGossipMessages
  | .receiptGossip => w.receiptGossipMessages

def increment (w : PeerMessageWindow) : PeerMessageClass → PeerMessageWindow
  | .syncControl => { w with syncControlMessages := w.syncControlMessages + 1 }
  | .transactionGossip => { w with transactionGossipMessages := w.transactionGossipMessages + 1 }
  | .receiptGossip => { w with receiptGossipMessages := w.receiptGossipMessages + 1 }

/-- `allow_peer_message_in_window`. -/
def allow (w : PeerMessageWindow) (messageClass : PeerMessageClass) (now : Nat) :
    PeerMessageWindow × Bool :=
  let w :=
    if w.startedAtUnixMillis = 0 ∨ now - w.startedAtUnixMillis ≥ peerMessageWindowMillis then
      { startedAtUnixMillis := now }
    else w
  if w.count messageClass ≥ messageClass.limit then (w, false)
  else (w.increment messageClass, true)

end PeerMessageWindow

/-! ## Events -/

/-- A JSON file of the inbox directory: its name, and the transaction it parses to. -/
structure InboxFile where
  name : String
  contents : Option SignedTransaction

/-- What the run loop selects on. -/
inductive Event where
  | slotTick
  | inboxTick (files : List InboxFile)
  | metricsTick
  | syncTick
  | received (fromValidatorId : ValidatorId) (payload : ProtocolMessage)
  | sessionObserved (peer : ValidatorId) (outbound serviceAccountable : Bool)
  | sessionFailed (peer : Option ValidatorId) (outbound serviceAccountable faultInjected : Bool)
  | inboundSessionDropped

section
variable (E : Env)

def allowPeerMessage (validatorId : ValidatorId) (payload : ProtocolMessage) : NodeM Bool :=
  match classifyPeerMessage payload with
  | none => pure true
  | some messageClass => do
    let t ← now E
    let n ← Proc.get
    let (window, allowed) := (n.peerMessageWindows.getD validatorId {}).allow messageClass t
    Proc.modify fun n =>
      { n with peerMessageWindows := n.peerMessageWindows.insert validatorId window }
    pure allowed

variable (fuel : Nat)

/-! ## Proposing -/

/-- `startup_sync_blocks_proposal`: the barrier is lifted once no peer is ahead. -/
def startupSyncBlocksProposal : NodeM Bool := do
  let n ← Proc.get
  if !n.startupSyncBarrier then pure false
  else if n.peerSyncStatus.size < E.config.peers.length then pure true
  else if n.anyPeerAhead E then pure true
  else
    Proc.modify fun n => { n with startupSyncBarrier := false }
    pure false

/-- The gating of the node's own proposals. -/
def gatingRejectsOwnProposal (n : Node) (epoch : Epoch) : Bool :=
  E.config.featureFlags.enableServiceGating && serviceGatingActive E epoch &&
    if E.v2 then
      match v2GatingState E n E.me epoch with
      | .rejectScore _ => true
      | _ => false
    else (serviceScoreForValidator n E.me).lt (serviceGatingThreshold E)

/-- The block `maybe_propose_block` builds at a clock reading. -/
def buildProposal (n : Node) (slot : Slot) (epoch : Epoch) (timestamp : Nat) :
    Except Error Block := do
  let commitmentReceipts :=
    if E.config.featureFlags.enableReceipts && epoch > 0 then
      ConsensusEngine.receiptsForValidator E.me (epoch - 1) n.receipts
    else []
  let commitment :=
    if E.config.featureFlags.enableReceipts && epoch > 0 then
      some (E.consensus.commitmentFromReceiptsWithWeights E.me (epoch - 1) commitmentReceipts 0 0
        E.config.featureFlags.serviceScoreWeights)
    else none
  let (simulated, accepted) := applyPassing E n.ledger (selectTransactionsForBlock E n)
  let header : BlockHeader :=
    { blockNumber := u64Add n.ledger.blockHeight 1, parentHash := n.ledger.snapshot.tipHash, slot
      epoch, proposerId := E.me, timestampUnixMillis := timestamp
      stateRoot := simulated.stateRoot E.hashing
      transactionsRoot := E.hashing.canonicalHash (.transactions accepted)
      topologyRoot := (commitment.map fun c => E.hashing.canonicalHash (.commitment c)).getD
        empty_hash }
  let blockHash := E.hashing.canonicalHash (.block header accepted commitment)
  let signature ← ofCrypto (E.crypto.sign E.me blockHash)
  .ok { header, transactions := accepted, commitment, commitmentReceipts, signature, blockHash }

/-- A fresh proposal: accepted like any block, then broadcast. -/
def proposeNewBlock (slot : Slot) (epoch : Epoch) : NodeM Unit := do
  let n ← Proc.get
  let timestamp ← now E
  let block ← check (buildProposal E n slot epoch timestamp)
  emit (.blockBuilt block)
  let acceptance ← acceptBlock E fuel block true
  let n ← Proc.get
  if acceptance = .accepted then
    tryPromoteOrphans E fuel fuel
    broadcast (.blockProposal block)
  else if acceptance = .orphan && n.isPendingCertifiedHeadBlock block then
    broadcast (.blockProposal block)
  else pure ()

def maybeProposeBlock (slot : Slot) (epoch : Epoch) : NodeM Unit := do
  let n ← Proc.get
  if E.config.pauseSlotProduction || n.lastProposedSlot == some slot ||
      E.consensus.proposerForSlot slot != E.me then pure ()
  else if ← startupSyncBlocksProposal E then pure ()
  else
    let n ← Proc.get
    if gatingRejectsOwnProposal E n epoch then pure ()
    else
      Proc.modify fun n => { n with lastProposedSlot := some slot }
      match n.preferredPendingChildForCertifiedHead with
      | some pendingChild =>
        maybeBroadcastLocalProposalVote E fuel pendingChild
        broadcast (.blockProposal pendingChild)
      | none => proposeNewBlock E fuel slot epoch

/-! ## Slot ticks -/

def pendingSlotsToProcess (lastProcessedSlot : Option Slot) (currentSlot : Slot) : List Slot :=
  match lastProcessedSlot with
  | none => List.range (currentSlot + 1)
  | some previousSlot =>
    if previousSlot ≥ currentSlot then [currentSlot]
    else List.range' (previousSlot + 1) (currentSlot - previousSlot)

def broadcastHeartbeat (slot : Slot) (epoch : Epoch) : NodeM Unit := do
  let n ← Proc.get
  if n.lastHeartbeatSlot = some slot then pure ()
  else
    Proc.modify fun n => { n with lastHeartbeatSlot := some slot }
    let t ← now E
    broadcast (.heartbeatPulse
      { epoch, slot, sourceValidatorId := E.me, sequenceNumber := slot, emittedAtUnixMillis := t })

def enterEpoch (epoch : Epoch) (isLiveSlot : Bool) : NodeM Unit := do
  let n ← Proc.get
  if n.lastLoggedEpoch = some epoch then pure ()
  else
    Proc.modify fun n => { n with lastLoggedEpoch := some epoch }
    if isLiveSlot then
      if epoch > 0 then requestReceiptReconciliation E (epoch - 1) else pure ()
      if epoch > 2 then refreshRecentServiceAttestations E epoch else pure ()
    else pure ()

def processSlot (currentSlot slot : Slot) : NodeM Unit := do
  let isLiveSlot := slot == currentSlot
  Proc.modify fun n => { n with lastProcessedSlot := some slot }
  let epoch := E.consensus.epochForSlot slot
  refreshServiceScores E
  enterEpoch E epoch isLiveSlot
  if isLiveSlot then
    broadcastHeartbeat E slot epoch
    let n ← Proc.get
    if E.config.syncOnStartup && n.anyPeerAhead E then
      let _ ← maybeBroadcastRecoverySyncStatus E slot
      let _ ← maybeRequestRecoverySyncFromAheadPeer E slot
      pure ()
    else pure ()
    if E.v2 then
      let _ ← maybeRepairStalePendingCertifiedChild E slot
      pure ()
    else pure ()
    maybeProposeBlock E fuel slot epoch
    tryPromoteOrphans E fuel fuel
  else pure ()

def processSlotTick : NodeM Unit := do
  let t ← now E
  let n ← Proc.get
  let currentSlot := E.consensus.slotAt t
  if t < E.genesis.genesisTimeUnixMillis || n.lastProcessedSlot == some currentSlot then pure ()
  else
    Proc.forEach (pendingSlotsToProcess n.lastProcessedSlot currentSlot)
      (processSlot E fuel currentSlot)

/-! ## The inbox -/

/-- The transactions of the inbox, or the error of the first file that does not parse. -/
def parseInbox : List InboxFile → Except Error (List (String × SignedTransaction))
  | [] => .ok []
  | file :: rest =>
    match file.contents with
    | none => .error (.inboxParse file.name)
    | some transaction => do
      let transactions ← parseInbox rest
      .ok ((file.name, transaction) :: transactions)

/-- Signer, nonce, time and file name. -/
def compareInbox (left right : String × SignedTransaction) : Ordering :=
  (((compare left.2.signerId right.2.signerId).then
    (compare left.2.transaction.nonce right.2.transaction.nonce)).then
    (compare left.2.submittedAtUnixMillis right.2.submittedAtUnixMillis)).then
    (compare left.1 right.1)

def processInbox (files : List InboxFile) : NodeM Unit := do
  let transactions ← check (parseInbox files)
  Proc.forEach (sortBy compareInbox transactions) fun (_, transaction) => do
    let _ ← Proc.attempt (handleTransaction E transaction E.me true)
    pure ()

/-! ## Protocol messages -/

/-- An error of `m` is logged. -/
def logged (m : NodeM Unit) : NodeM Unit := do
  let _ ← Proc.attempt m
  pure ()

def handleBlockProposal (fromValidatorId : ValidatorId) (block : Block) : NodeM Unit := do
  Proc.modify (·.recordPeerSyncStatusWithSlot fromValidatorId
    { height := block.header.blockNumber, tipHash := block.blockHash
      tipLastSlot := block.header.slot, highestQcHash := none, highestQcHeight := 0
      recentQcAnchors := [] })
  maybeIssueReceipt E fromValidatorId E.me .block block.header.slot block.blockHash
    (E.hashing.canonicalHash (.header block.header)) block.header.blockNumber
  match ← Proc.attempt (acceptBlock E fuel block false) with
  | .ok .accepted =>
    tryPromoteOrphans E fuel fuel
    broadcast (.blockProposal block)
  | .ok .orphan =>
    let n ← Proc.get
    if n.isPendingCertifiedHeadBlock block then logged (requestLegacySyncFrom E fromValidatorId)
    else
      Proc.modify (·.recordSyncRepairFailure fromValidatorId)
      logged (pushBestSyncTo E fromValidatorId (block.header.blockNumber - 1)
        block.header.parentHash)
      logged (requestSyncFrom E fromValidatorId)
  | .ok .duplicate => pure ()
  | .error _ => pure ()

def handleQuorumCertificate (fromValidatorId : ValidatorId) (qc : QuorumCertificate) :
    NodeM Unit := do
  let n ← Proc.get
  if (n.knownBlock qc.blockHash).isNone then
    Proc.modify (·.recordPeerSyncStatusWithSlot fromValidatorId
      { height := qc.blockNumber, tipHash := qc.blockHash, tipLastSlot := qc.slot
        highestQcHash := some qc.blockHash, highestQcHeight := qc.blockNumber
        recentQcAnchors := [{ blockHash := qc.blockHash, blockNumber := qc.blockNumber }] })
    logged (requestSyncFrom E fromValidatorId)
  else
    match ← Proc.attempt (importQuorumCertificate E fuel qc) with
    | .ok true => announceCertifiedProgress E
    | .ok false => pure ()
    | .error _ => pure ()

def handleSyncStatus (validatorId : ValidatorId) (status : PeerSyncStatus) : NodeM Unit := do
  Proc.modify (·.recordPeerSyncStatusWithSlot validatorId status)
  let n ← Proc.get
  let view := n.localSyncView
  if status.height > view.height then logged (requestSyncFrom E validatorId)
  else if status.height < view.height ∨ status.tipHash ≠ view.tipHash then
    logged (pushBestSyncTo E validatorId status.height status.tipHash)
  else pure ()

def handleSyncRequest (requesterId : ValidatorId) (knownHeight : Nat) (knownTipHash : HashBytes) :
    NodeM Unit := do
  let forceFullSnapshot := isForceFullSnapshotHint knownHeight knownTipHash
  Proc.modify (·.recordPeerSyncStatus requesterId knownHeight knownTipHash none 0 [])
  let throttled ←
    if forceFullSnapshot then pure false
    else syncRequestIsThrottled E requesterId knownHeight knownTipHash
  if throttled then pure ()
  else if forceFullSnapshot then
    -- `find_peer` comes before the export.
    if E.config.peers.any (·.validatorId == requesterId) then sendFullSnapshotTo E requesterId
    else Proc.throw (.unknownPeer requesterId)
  else
    recordSyncRequestServed E requesterId knownHeight knownTipHash
    if E.v2 then pushBestSyncTo E requesterId knownHeight knownTipHash
    else sendBestSyncTo E requesterId knownHeight knownTipHash

/-- What follows a snapshot or segment that was applied. -/
def afterSyncApplied (responderId : ValidatorId) : NodeM Unit := do
  tryPromoteOrphans E fuel fuel
  Proc.modify (·.clearSyncRepairMemory responderId)
  let n ← Proc.get
  if n.peerStatusIsAhead responderId then requestSyncFrom E responderId else pure ()
  logged (maybePushTipProgressToStalePeers E)

def recordResponder (responderId : ValidatorId) (snapshot : StateSnapshot) (n : Node) : Node :=
  n.recordPeerSyncStatusWithSlot responderId
    { height := snapshot.height, tipHash := snapshot.tipHash, tipLastSlot := snapshot.lastSlot
      highestQcHash := none, highestQcHeight := 0, recentQcAnchors := [] }

def handleSyncResponse (responderId : ValidatorId) (chain : ChainSnapshot) : NodeM Unit := do
  Proc.modify (recordResponder responderId chain.snapshot)
  let n ← Proc.get
  if shouldAdoptChainSnapshot E n n.ledger.snapshot chain then
    match ← Proc.attempt (applyChainSnapshot E fuel chain) with
    | .ok _ => afterSyncApplied E fuel responderId
    | .error _ => pure ()
  else if shouldPushLocalSnapshotAfterSyncResponse E n n.ledger.snapshot chain then
    logged (pushBestSyncTo E responderId chain.snapshot.height chain.snapshot.tipHash)
  else pure ()

def handleSyncBlocks (responderId : ValidatorId) (chain : ChainSegment) : NodeM Unit := do
  Proc.modify (recordResponder responderId chain.targetSnapshot)
  let n ← Proc.get
  if !shouldAdoptChainSegment E n n.ledger.snapshot chain then pure ()
  else
    match ← Proc.attempt (applyChainSegment E fuel chain) with
    | .ok _ => afterSyncApplied E fuel responderId
    | .error _ =>
      Proc.modify (·.recordSyncRepairFailure responderId)
      logged (requestSyncFrom E responderId)

def handleCertifiedSyncRequest (request : ChunkedSyncRequest) : NodeM Unit := do
  let n ← Proc.get
  let sharedAnchor := n.highestSharedQcAnchor
    (peerQcAnchors request.knownQcAnchors request.knownQcHash request.knownQcHeight)
  sendTo E request.requesterId
    (.certifiedSyncResponse (n.buildCertifiedSyncResponse E request))
  match sharedAnchor with
  | some sharedAnchor => sendAnchoredSuffixSyncTo E request.requesterId sharedAnchor
  | none => pure ()

/-- The request that follows a certified response which was not applied. -/
def followUpIgnored (responderId : ValidatorId) (reason : CertifiedSyncIgnoreReason) :
    NodeM Unit := do
  let n ← Proc.get
  match reason with
  | .unavailable =>
    if n.startupSyncBarrier then requestFollowupLegacySyncFrom E responderId
    else if ← requestBestAvailableSyncFromAheadPeersExcluding E (some responderId) then pure ()
    else requestFollowupLegacySyncFrom E responderId
  | .sharedQcMismatch => requestFollowupLegacySyncFrom E responderId
  | .staleSnapshot =>
    if n.preferredPendingChildForCertifiedHead.isSome then
      requestFollowupLegacySyncFrom E responderId
    else pure ()
  | .emptyPayload => pure ()

def handleCertifiedSyncResponse (fromValidatorId : ValidatorId) (response : ChunkedSyncResponse) :
    NodeM Unit := do
  match ← Proc.attempt (importCertifiedSyncResponse E fuel response) with
  | .ok .applied =>
    tryPromoteOrphans E fuel fuel
    announceCertifiedProgress E
  | .ok (.ignored reason) => logged (followUpIgnored E fromValidatorId reason)
  | .error _ =>
    Proc.modify (·.recordSyncRepairFailure fromValidatorId)
    logged do
      let _ ← requestBestAvailableSyncFromAheadPeersExcluding E (some fromValidatorId)
      pure ()

def handleServiceAttestation (attestation : ServiceAttestation) : NodeM Unit := do
  match ← Proc.attempt (importServiceAttestation E attestation) with
  | .error _ => pure ()
  | .ok _ =>
    let _ ← maybePublishServiceAggregate E attestation.subjectValidatorId attestation.epoch
    pure ()

def handleServiceAggregate (aggregate : ServiceAggregate) : NodeM Unit := do
  match ← Proc.attempt (importServiceAggregate E aggregate) with
  | .error _ => pure ()
  | .ok _ => refreshServiceScores E

def handleReceiptFetch (requesterId : ValidatorId) (epoch : Epoch) (validatorId : ValidatorId) :
    NodeM Unit := do
  let n ← Proc.get
  let receipts := n.receipts.filter fun r => r.epoch == epoch && r.sourceValidatorId == validatorId
  sendTo E requesterId (.receiptResponse E.me epoch validatorId receipts)

/-- The `match` of `handle_protocol_message`, after the rate limit. -/
def dispatchMessage (fromValidatorId : ValidatorId) : ProtocolMessage → NodeM Unit
  | .transactionBroadcast transaction =>
    logged (handleTransaction E transaction fromValidatorId false)
  | .blockProposal block => handleBlockProposal E fuel fromValidatorId block
  | .proposalVote vote =>
    if E.v2 then logged do
      let _ ← importProposalVote E fuel vote
      pure ()
    else pure ()
  | .quorumCertificate qc =>
    if E.v2 then handleQuorumCertificate E fuel fromValidatorId qc else pure ()
  | .syncStatus validatorId height tipHash tipLastSlot highestQcHash highestQcHeight anchors =>
    handleSyncStatus E validatorId
      { height, tipHash, tipLastSlot, highestQcHash, highestQcHeight, recentQcAnchors := anchors }
  | .syncRequest requesterId knownHeight knownTipHash =>
    handleSyncRequest E requesterId knownHeight knownTipHash
  | .syncResponse responderId chain => handleSyncResponse E fuel responderId chain
  | .syncBlocks responderId chain => handleSyncBlocks E fuel responderId chain
  | .certifiedSyncRequest request =>
    if E.v2 then handleCertifiedSyncRequest E request else pure ()
  | .certifiedSyncResponse response =>
    if E.v2 then handleCertifiedSyncResponse E fuel fromValidatorId response else pure ()
  | .heartbeatPulse pulse =>
    maybeIssueReceipt E pulse.sourceValidatorId E.me .heartbeat pulse.slot
      (E.hashing.canonicalHash (.pulse pulse)) (E.hashing.canonicalHash (.pulse pulse))
      pulse.sequenceNumber
  | .relayReceipt receipt => do
    if ← storeReceipt E receipt then broadcast (.relayReceipt receipt) else pure ()
  | .serviceAttestation attestation =>
    if E.v2 then handleServiceAttestation E attestation else pure ()
  | .serviceAggregate aggregate =>
    if E.v2 then handleServiceAggregate E aggregate else pure ()
  | .receiptFetch requesterId epoch validatorId =>
    handleReceiptFetch E requesterId epoch validatorId
  | .receiptResponse _ _ _ receipts => Proc.forEach receipts fun receipt => do
    let _ ← storeReceipt E receipt
    pure ()

def handleProtocolMessage (fromValidatorId : ValidatorId) (payload : ProtocolMessage) :
    NodeM Unit := do
  if ← allowPeerMessage E fromValidatorId payload then
    dispatchMessage E fuel fromValidatorId payload
  else pure ()

/-! ## The run loop -/

def handleSessionObserved (peer : ValidatorId) : NodeM Unit := do
  Proc.modify fun n => { n with knownLivePeers := n.knownLivePeers.insert peer }
  let epoch ← currentEpoch E
  Proc.modify (recordSuccessfulSession E epoch E.me peer)

def handleEvent : Event → NodeM Unit
  | .slotTick => processSlotTick E fuel
  | .inboxTick files => processInbox E files
  | .metricsTick => refreshServiceScores E
  | .syncTick => if E.config.syncOnStartup then runSyncMaintenance E else pure ()
  | .received fromValidatorId payload => do
    Proc.modify fun n => { n with knownLivePeers := n.knownLivePeers.insert fromValidatorId }
    handleProtocolMessage E fuel fromValidatorId payload
  | .sessionObserved peer outbound serviceAccountable =>
    if outbound && serviceAccountable then handleSessionObserved E peer else pure ()
  | .sessionFailed peer outbound serviceAccountable faultInjected => do
    Proc.modify fun n => { n with failedSessions := n.failedSessions + 1 }
    match peer with
    | some peer =>
      if outbound && serviceAccountable && faultInjected then
        let epoch ← currentEpoch E
        Proc.modify (recordFailedSession E epoch E.me peer)
      else pure ()
    | none => pure ()
  | .inboundSessionDropped => pure ()

end

end Entangrid
