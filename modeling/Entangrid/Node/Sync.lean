import Entangrid.Node.Chain

/-!
# Sync: what a node tells its peers

The local view a node advertises, what it remembers of its peers, the snapshots, segments and
certified suffixes it exports, and the requests it sends. Imports are in `Node.Import`.
-/

namespace Entangrid

open NodeM

/-- No segment is longer. -/
def maxIncrementalSyncBlocks : Nat := 64

/-- Nor a segment that does not start at the highest certificate. -/
def maxPreferredIncrementalSyncBlocks : Nat := 12
def syncRequestCooldownMillis : Nat := 1500
def incrementalSyncFailuresBeforeFullSnapshot : Nat := 1

/-- The anchors a node advertises, and keeps of a peer. -/
def certifiedSyncAnchorLimit : Nat := 32

/-- The slots after which a recovery request is repeated while the view stays the same. -/
def recoverySyncRetrySlots : Nat := 2

/-- Height, slot and hash of a tip, compared in this order. -/
abbrev SyncPreference := Nat × Nat × HashBytes

def LocalSyncView.preference (view : LocalSyncView) : SyncPreference :=
  (view.height, view.tipLastSlot, view.tipHash)

def PeerSyncStatus.preference (status : PeerSyncStatus) : SyncPreference :=
  (status.height, status.tipLastSlot, status.tipHash)

def StateSnapshot.preference (snapshot : StateSnapshot) : SyncPreference :=
  (snapshot.height, snapshot.lastSlot, snapshot.tipHash)

/-- `>` on tuples. -/
def SyncPreference.gt (a b : SyncPreference) : Bool := compare a b == .gt

/-- A different certificate of the same height counts as ahead, on both sides. -/
def localSyncViewIsAheadOfStatus (view : LocalSyncView) (status : PeerSyncStatus) : Bool :=
  view.highestQcHeight > status.highestQcHeight ||
    (view.highestQcHeight == status.highestQcHeight &&
      view.highestQcHash != status.highestQcHash) ||
    SyncPreference.gt view.preference status.preference

/-- A higher chain, or one of the same height with a later slot or a greater hash. -/
def shouldAdoptSnapshot (locally remote : StateSnapshot) : Bool :=
  SyncPreference.gt remote.preference locally.preference

/-- The height of the highest certificate comes first. -/
def shouldAdoptCertifiedSnapshot (locally : StateSnapshot) (localHighestQcHeight : Nat)
    (remote : StateSnapshot) (remoteHighestQcHeight : Nat) : Bool :=
  if remoteHighestQcHeight ≠ localHighestQcHeight then
    remoteHighestQcHeight > localHighestQcHeight
  else shouldAdoptSnapshot locally remote

/-- The sentinel of `syncRequestKnownState`. -/
def isForceFullSnapshotHint (knownHeight : Nat) (knownTipHash : HashBytes) : Bool :=
  knownHeight == u64Max && knownTipHash == empty_hash

/-- A sentinel height forces the responder to fall back to a full snapshot. -/
def syncRequestKnownState (localHeight : Nat) (localTipHash : HashBytes)
    (forceFullSnapshot : Bool) : Nat × HashBytes :=
  if forceFullSnapshot then (u64Max, empty_hash) else (localHeight, localTipHash)

/-- The sentinel says nothing of the peer. -/
def shouldRecordPeerSyncStatus (height : Nat) (tipHash : HashBytes) : Bool :=
  !isForceFullSnapshotHint height tipHash

/-- Anchors in descending order of number and hash. -/
def compareAnchors (left right : SyncQcAnchor) : Ordering :=
  (compare right.blockNumber left.blockNumber).then (compare right.blockHash left.blockHash)

/-- `slice::sort_by`: stable. -/
def sortBy {α : Type} (cmp : α → α → Ordering) (xs : List α) : List α :=
  xs.insertionSort fun a b => cmp a b ≠ .gt

/-- `Vec::dedup_by` on equal hashes: of consecutive equal ones the first stays. -/
def dedupAnchors : List SyncQcAnchor → List SyncQcAnchor
  | [] => []
  | anchor :: rest =>
    match dedupAnchors rest with
    | [] => [anchor]
    | next :: rest' =>
      if anchor.blockHash = next.blockHash then anchor :: rest' else anchor :: next :: rest'

/-- The union in descending order, cut at the limit; only neighbours are deduplicated. -/
def mergeSyncQcAnchors (existing incoming : List SyncQcAnchor) (limit : Nat) : List SyncQcAnchor :=
  (dedupAnchors (sortBy compareAnchors (existing ++ incoming))).take limit

/-- A repeated request within the cooldown, while neither certificate nor tip have changed since the
answer. -/
def syncRequestShouldThrottle (served : ServedSyncRequest) (now knownHeight : Nat)
    (knownTipHash : HashBytes) (localHeight : Nat) (localTipHash : HashBytes)
    (localHighestQcHeight : Nat) (localHighestQcHash : Option HashBytes) : Bool :=
  if isForceFullSnapshotHint knownHeight knownTipHash then false
  else if localHighestQcHeight = knownHeight ∧ localHighestQcHash = some knownTipHash ∧
      localHeight > localHighestQcHeight then false
  else if localHighestQcHeight > served.servedLocalHighestQcHeight ∨
      (localHighestQcHeight = served.servedLocalHighestQcHeight ∧
        localHighestQcHash ≠ served.servedLocalHighestQcHash) ∨
      (localHeight, localTipHash) ≠ (served.servedLocalHeight, served.servedLocalTipHash) then false
  else
    now - served.servedAtUnixMillis < syncRequestCooldownMillis &&
      served.knownHeight == knownHeight && served.knownTipHash == knownTipHash

/-- The anchors a peer names: its list, or its highest certificate when the list is empty. -/
def peerQcAnchors (anchors : List SyncQcAnchor) (qcHash : Option HashBytes) (qcHeight : Nat) :
    List SyncQcAnchor :=
  if !anchors.isEmpty then anchors
  else
    match qcHash with
    | some blockHash => if qcHeight > 0 then [{ blockHash, blockNumber := qcHeight }] else []
    | none => []

/-- The blocks above a block of the chain, if they are few enough, with the receipts their
commitments may need. -/
def buildChainSegmentFromChain (targetSnapshot : StateSnapshot) (blocks : List Block)
    (receipts : List RelayReceipt) (windowEpochs knownHeight : Nat) (knownTipHash : HashBytes)
    (preferredMaxBlocks : Nat) : Option ChainSegment := do
  if knownHeight ≥ blocks.length then none
  else
    let expectedTipHash ←
      if knownHeight = 0 then some empty_hash else blocks[knownHeight - 1]?.map (·.blockHash)
    if expectedTipHash ≠ knownTipHash then none
    else
      let missingBlocks := blocks.drop knownHeight
      if missingBlocks.isEmpty ∨ missingBlocks.length > maxIncrementalSyncBlocks ∨
          missingBlocks.length > preferredMaxBlocks then none
      else
        let latestEpoch := (blocks.getLast?.map (·.header.epoch)).getD 0
        let earliestRecentEpoch := latestEpoch - (windowEpochs - 1)
        let baseEpoch :=
          if knownHeight = 0 then 0 else (blocks[knownHeight - 1]?.map (·.header.epoch)).getD 0
        let earliestReceiptEpoch := min earliestRecentEpoch (baseEpoch - 1)
        some
          { baseHeight := knownHeight, baseTipHash := knownTipHash, targetSnapshot
            blocks := missingBlocks
            receipts := receipts.filter (·.epoch ≥ earliestReceiptEpoch)
            proposalVotes := [] }

namespace Node

variable (n : Node)

/-! ## The local view -/

/-- What the node advertises of its chain: behind the startup barrier, its certified part only. -/
def localSyncView : LocalSyncView :=
  let snapshot := n.ledger.snapshot
  let localQc := n.highestLocalQc
  let rawView : LocalSyncView :=
    { height := snapshot.height, tipHash := snapshot.tipHash, tipLastSlot := snapshot.lastSlot
      highestQcHash := localQc.map (·.blockHash)
      highestQcHeight := (localQc.map (·.blockNumber)).getD 0 }
  if !n.startupSyncBarrier then rawView
  else
    match localQc with
    | none => rawView
    | some qc =>
      if rawView.height ≤ qc.blockNumber then rawView
      else
        { height := qc.blockNumber, tipHash := qc.blockHash, tipLastSlot := qc.slot
          highestQcHash := some qc.blockHash, highestQcHeight := qc.blockNumber }

/-- The certified blocks of the chain, the highest first. -/
def localQcAnchors (limit : Nat) : List SyncQcAnchor :=
  (n.blocks.reverse.filterMap fun block =>
    n.quorumCertificates[block.blockHash]?.map fun qc =>
      { blockHash := qc.blockHash, blockNumber := qc.blockNumber : SyncQcAnchor }).take limit

/-- The blocks the node exports: those of the local view. -/
def syncExportPrefixLen : Nat := min n.localSyncView.height n.blocks.length

/-- The state at the end of the exported blocks, replayed where that is not the tip. -/
def syncExportSnapshot (E : Env) : Except Error StateSnapshot :=
  let prefixLen := n.syncExportPrefixLen
  if prefixLen = n.blocks.length then .ok n.ledger.snapshot
  else do
    let ledger ← LedgerState.replayBlocks E.hashing E.crypto E.genesis (n.blocks.take prefixLen)
    .ok ledger.snapshot

/-- The stored votes for the blocks of a list, by block and then by validator. -/
def votesForBlocks (blocks : List Block) : List ProposalVote :=
  (n.proposalVotes.toList.filter fun (blockHash, _) => hasBlock blocks blockHash).flatMap
    fun (_, byValidator) => byValidator.toList.map (·.2)

/-- The exported chain with all receipts and the votes for its blocks. -/
def buildChainSnapshot (E : Env) : Except Error ChainSnapshot := do
  let snapshotBlocks := n.blocks.take n.syncExportPrefixLen
  let snapshot ← n.syncExportSnapshot E
  .ok { snapshot, blocks := snapshotBlocks, receipts := n.receipts
        proposalVotes := n.votesForBlocks snapshotBlocks }

/-- The exported blocks above a known one, with their votes. -/
def buildChainSegment (E : Env) (knownHeight : Nat) (knownTipHash : HashBytes) :
    Except Error (Option ChainSegment) := do
  let prefixLen := n.syncExportPrefixLen
  let anchoredAtQc := E.v2 && (n.highestLocalQc.map fun qc =>
    knownHeight == qc.blockNumber && knownTipHash == qc.blockHash &&
      prefixLen > qc.blockNumber).getD false
  let preferredMaxBlocks :=
    if anchoredAtQc then maxIncrementalSyncBlocks else maxPreferredIncrementalSyncBlocks
  let snapshot ← n.syncExportSnapshot E
  .ok ((buildChainSegmentFromChain snapshot (n.blocks.take prefixLen) n.receipts
    E.config.featureFlags.serviceScoreWindowEpochs knownHeight knownTipHash
    preferredMaxBlocks).map fun chain =>
      { chain with proposalVotes := n.votesForBlocks chain.blocks })

/-! ## Certified suffixes -/

/-- The highest anchor of a peer that is certified on the own chain. -/
def highestSharedQcAnchor (peerAnchors : List SyncQcAnchor) : Option SyncQcAnchor :=
  (sortBy compareAnchors peerAnchors).find? fun anchor =>
    hasBlock n.blocks anchor.blockHash && n.hasQc anchor.blockHash

/-- The leading blocks of a list that have a certificate, with it. -/
def certifiedPrefix : List Block → List (Block × QuorumCertificate)
  | [] => []
  | block :: rest =>
    match n.quorumCertificates[block.blockHash]? with
    | some qc => (block, qc) :: certifiedPrefix rest
    | none => []

/-- The certified blocks that follow a shared one, with the aggregates of their epochs. -/
def certifiedSuffixFromSharedQc (E : Env) (sharedQcHash : HashBytes) :
    Option (List Block × List QuorumCertificate × List ServiceAggregate) := do
  let sharedIndex ← n.blocks.findIdx? (·.blockHash == sharedQcHash)
  let suffix := n.certifiedPrefix (n.blocks.drop (sharedIndex + 1))
  let blocks := suffix.map (·.1)
  if blocks.isEmpty then none
  else
    let firstEpoch := (blocks.head?.map (·.header.epoch)).getD 0
    let lastEpoch := (blocks.getLast?.map (·.header.epoch)).getD 0
    let earliestEpoch := firstEpoch - E.config.featureFlags.serviceScoreWindowEpochs
    let aggregates := (n.serviceAggregates.toList.map (·.2)).filter fun aggregate =>
      aggregate.epoch ≥ earliestEpoch && aggregate.epoch ≤ lastEpoch
    some (blocks, suffix.map (·.2), aggregates)

/-- The suffix above the highest anchor the peer shares. -/
def buildCertifiedSyncResponseForPeer (E : Env) (peerAnchors : List SyncQcAnchor) :
    ChunkedSyncResponse :=
  let response := do
    let anchor ← n.highestSharedQcAnchor peerAnchors
    let sharedQcBlock ← findBlock n.blocks anchor.blockHash
    if !n.hasQc anchor.blockHash then none
    else
      let (blocks, qcs, serviceAggregates) ← n.certifiedSuffixFromSharedQc E anchor.blockHash
      if blocks.isEmpty then none
      else
        some
          { responderId := E.me, responderHeight := n.localSyncView.height
            responderTipHash := n.localSyncView.tipHash, sharedQcHash := anchor.blockHash
            sharedQcHeight := sharedQcBlock.header.blockNumber
            headers := (blocks.zip qcs).map fun (block, qc) =>
              { header := block.header, blockHash := block.blockHash
                quorumCertificate := some qc, priorServiceAggregate := none }
            blocks, qcs, serviceAggregates : CertifiedSync }
  match response with
  | some response => .certified response
  | none => .unavailable E.me

/-- The answer to a request, for `consensus_v2` only. -/
def buildCertifiedSyncResponse (E : Env) (request : ChunkedSyncRequest) : ChunkedSyncResponse :=
  if !E.v2 || !request.wantCertifiedOnly then .unavailable E.me
  else
    n.buildCertifiedSyncResponseForPeer E
      (peerQcAnchors request.knownQcAnchors request.knownQcHash request.knownQcHeight)

/-- The anchor shared with what the peer last advertised. -/
def sharedQcAnchorForPeer (validatorId : ValidatorId) : Option SyncQcAnchor := do
  let status ← n.peerSyncStatus[validatorId]?
  n.highestSharedQcAnchor
    (peerQcAnchors status.recentQcAnchors status.highestQcHash status.highestQcHeight)

/-! ## Peers -/

/-- A peer with another certificate of the same height, or an unknown tip of the same height, counts
as ahead. -/
def peerStatusIsAhead (validatorId : ValidatorId) : Bool :=
  match n.peerSyncStatus[validatorId]? with
  | none => false
  | some status =>
    let view := n.localSyncView
    status.highestQcHeight > view.highestQcHeight ||
      (status.highestQcHeight == view.highestQcHeight &&
        status.highestQcHash != view.highestQcHash) ||
      (view.highestQcHeight > 0 && status.highestQcHeight == view.highestQcHeight &&
        status.highestQcHash == view.highestQcHash && status.height == view.height &&
        status.tipHash != view.tipHash && status.tipLastSlot == 0) ||
      SyncPreference.gt status.preference view.preference

def anyPeerAhead (E : Env) : Bool := E.config.peers.any fun peer => n.peerStatusIsAhead peer.validatorId

/-- While the barrier of the start is up and a peer is ahead. -/
def recoverySyncOnlyActive (E : Env) : Bool := n.startupSyncBarrier && n.anyPeerAhead E

/-- The failures in following a peer since the last success. -/
def repairFailures (validatorId : ValidatorId) : Nat := n.peerSyncRepairFailures.getD validatorId 0

def shouldForceFullSnapshotForPeer (validatorId : ValidatorId) : Bool :=
  n.repairFailures validatorId ≥ incrementalSyncFailuresBeforeFullSnapshot

/-- Same highest certificate, different blocks above it, and the peer's are preferred. -/
def peerSharesLocalCertifiedFrontierWithDivergentSuffix (validatorId : ValidatorId) : Bool :=
  match n.peerSyncStatus[validatorId]?, n.highestLocalQc with
  | some status, some localQc =>
    let view := n.localSyncView
    view.height > localQc.blockNumber && status.highestQcHeight == view.highestQcHeight &&
      status.highestQcHash == view.highestQcHash &&
      status.highestQcHash == some localQc.blockHash &&
      SyncPreference.gt status.preference view.preference
  | _, _ => false

/-- Whether to ask for a certified suffix or for a chain. -/
def preferredV2SyncModeForPeer (validatorId : ValidatorId) : V2SyncMode :=
  match n.peerSyncStatus[validatorId]? with
  | none => if n.highestLocalQc.isSome then .certified else .legacy
  | some status =>
    let view := n.localSyncView
    let qcHeight := view.highestQcHeight
    let peerAhead := SyncPreference.gt status.preference view.preference
    let distinctOrHigher := status.highestQcHeight > qcHeight ||
      (status.highestQcHeight == qcHeight && status.highestQcHash != view.highestQcHash)
    if n.repairFailures validatorId > 0 && (distinctOrHigher ||
        n.peerSharesLocalCertifiedFrontierWithDivergentSuffix validatorId) then .certified
    else if status.highestQcHeight = 0 ∧ qcHeight = 0 then .legacy
    else if status.highestQcHeight > qcHeight then .certified
    else if status.highestQcHeight = qcHeight ∧ status.highestQcHash = view.highestQcHash ∧
        peerAhead then .legacy
    else if status.highestQcHeight = qcHeight ∧ status.highestQcHash ≠ view.highestQcHash then
      .certified
    else if peerAhead then .legacy
    else if qcHeight > 0 then .certified
    else .legacy

/-- The height and tip a sync request to a peer claims to know. -/
def syncRequestHintForPeer (E : Env) (validatorId : ValidatorId) : Nat × HashBytes :=
  let forceFullSnapshot := n.shouldForceFullSnapshotForPeer validatorId &&
    !n.peerSharesLocalCertifiedFrontierWithDivergentSuffix validatorId
  let view := n.localSyncView
  let fallback := syncRequestKnownState view.height view.tipHash forceFullSnapshot
  if E.v2 && !forceFullSnapshot && !n.startupSyncBarrier && n.peerStatusIsAhead validatorId then
    match n.highestLocalQc with
    | some localQc =>
      if n.ledger.snapshot.height > localQc.blockNumber then
        syncRequestKnownState localQc.blockNumber localQc.blockHash false
      else fallback
    | none => fallback
  else fallback

/-- What a push to a peer depends on; it is not repeated while this is the same. -/
def syncPushStateForPeer (validatorId : ValidatorId) (knownHeight : Nat) (knownTipHash : HashBytes) :
    ServedSyncPush :=
  let status := n.peerSyncStatus.getD validatorId
    { height := knownHeight, tipHash := knownTipHash, tipLastSlot := 0, highestQcHash := none
      highestQcHeight := 0, recentQcAnchors := [] }
  let view := n.localSyncView
  { peerHeight := status.height, peerTipHash := status.tipHash
    peerHighestQcHash := status.highestQcHash, peerHighestQcHeight := status.highestQcHeight
    localHeight := view.height, localTipHash := view.tipHash
    localHighestQcHash := view.highestQcHash, localHighestQcHeight := view.highestQcHeight }

/-- The highest certificate, then the preferred tip, then the greater id. -/
def compareAheadPeers (left right : ValidatorId × PeerSyncStatus) : Ordering :=
  ((compare right.2.highestQcHeight left.2.highestQcHeight).then
    (compare right.2.preference left.2.preference)).then (compare right.1 left.1)

/-- The first of the peers ahead. -/
def bestAheadPeerExcluding (E : Env) (excluded : Option ValidatorId) : Option ValidatorId :=
  let candidates := E.config.peers.filterMap fun peer =>
    if excluded = some peer.validatorId then none
    else do
      let status ← n.peerSyncStatus[peer.validatorId]?
      if n.peerStatusIsAhead peer.validatorId then some (peer.validatorId, status) else none
  (sortBy compareAheadPeers candidates).head?.map (·.1)

def bestAvailableAheadPeer (E : Env) : Option ValidatorId := n.bestAheadPeerExcluding E none

/-- The slot of an advertised tip, as far as the node knows the block. -/
def inferTipLastSlot (height : Nat) (tipHash : HashBytes) : Nat :=
  if height = 0 ∨ tipHash = empty_hash then 0
  else
    (((n.knownBlock tipHash).map (·.header.slot)).or
      (n.quorumCertificates[tipHash]?.map (·.slot))).getD 0

/-- The status kept for a peer after it advertised `incoming`. -/
def mergedPeerSyncStatus (validatorId : ValidatorId) (incoming : PeerSyncStatus) : PeerSyncStatus :=
  match n.peerSyncStatus[validatorId]? with
  | none => { incoming with
      recentQcAnchors := mergeSyncQcAnchors [] incoming.recentQcAnchors certifiedSyncAnchorLimit }
  | some status =>
    let restartFrontierUpdate := status.height > incoming.height &&
      incoming.highestQcHeight > 0 && incoming.highestQcHeight == incoming.height &&
      incoming.highestQcHash == some incoming.tipHash
    if restartFrontierUpdate then
      { incoming with
        recentQcAnchors :=
          if incoming.recentQcAnchors.isEmpty then
            [{ blockHash := incoming.tipHash, blockNumber := incoming.height }]
          else incoming.recentQcAnchors }
    else
      let keepTip := SyncPreference.gt status.preference incoming.preference
      let keepQc := status.highestQcHeight > incoming.highestQcHeight
      { height := if keepTip then status.height else incoming.height
        tipHash := if keepTip then status.tipHash else incoming.tipHash
        tipLastSlot := if keepTip then status.tipLastSlot else incoming.tipLastSlot
        highestQcHash := if keepQc then status.highestQcHash else incoming.highestQcHash
        highestQcHeight := if keepQc then status.highestQcHeight else incoming.highestQcHeight
        recentQcAnchors := mergeSyncQcAnchors status.recentQcAnchors incoming.recentQcAnchors
          certifiedSyncAnchorLimit }

/-- What a peer reports is merged into what is known of it. -/
def recordPeerSyncStatusWithSlot (validatorId : ValidatorId) (incoming : PeerSyncStatus) : Node :=
  if shouldRecordPeerSyncStatus incoming.height incoming.tipHash then
    { n with
      peerSyncStatus :=
        n.peerSyncStatus.insert validatorId (n.mergedPeerSyncStatus validatorId incoming) }
  else n

/-- The same for a report that does not name the slot of the tip. -/
def recordPeerSyncStatus (validatorId : ValidatorId) (height : Nat) (tipHash : HashBytes)
    (highestQcHash : Option HashBytes) (highestQcHeight : Nat)
    (recentQcAnchors : List SyncQcAnchor) : Node :=
  n.recordPeerSyncStatusWithSlot validatorId
    { height, tipHash, tipLastSlot := n.inferTipLastSlot height tipHash, highestQcHash
      highestQcHeight, recentQcAnchors }

def recordSyncRepairFailure (validatorId : ValidatorId) : Node :=
  { n with
    peerSyncRepairFailures :=
      n.peerSyncRepairFailures.insert validatorId (n.repairFailures validatorId + 1) }

def clearSyncRepairMemory (validatorId : ValidatorId) : Node :=
  { n with peerSyncRepairFailures := n.peerSyncRepairFailures.erase validatorId }

def recordSyncPushServed (validatorId : ValidatorId) (state : ServedSyncPush) : Node :=
  { n with lastSyncPushServed := n.lastSyncPushServed.insert validatorId state }

end Node

/-! ## Sending -/

section
variable (E : Env)

/-- Tell all peers the local view and its anchors. -/
def broadcastSyncStatus : NodeM Unit := do
  let n ← Proc.get
  let view := n.localSyncView
  broadcast (.syncStatus E.me view.height view.tipHash view.tipLastSlot view.highestQcHash
    view.highestQcHeight (n.localQcAnchors certifiedSyncAnchorLimit))

/-- Ask for the chain above what the node claims to know. -/
def requestLegacySyncFrom (validatorId : ValidatorId) : NodeM Unit := do
  let n ← Proc.get
  let (knownHeight, knownTipHash) := n.syncRequestHintForPeer E validatorId
  sendTo E validatorId (.syncRequest E.me knownHeight knownTipHash)

/-- Ask again for what is above the view, after an import. -/
def requestFollowupLegacySyncFrom (validatorId : ValidatorId) : NodeM Unit := do
  let n ← Proc.get
  sendTo E validatorId (.syncRequest E.me n.localSyncView.height n.localSyncView.tipHash)

/-- Ask for the certified suffix above a shared anchor. -/
def requestCertifiedSyncFrom (validatorId : ValidatorId) : NodeM Unit := do
  let n ← Proc.get
  let highestQc := n.highestLocalQc
  sendTo E validatorId (.certifiedSyncRequest
    { requesterId := E.me, knownQcHash := highestQc.map (·.blockHash)
      knownQcHeight := (highestQc.map (·.blockNumber)).getD 0
      knownQcAnchors := n.localQcAnchors certifiedSyncAnchorLimit
      fromHeight := n.ledger.blockHeight, wantCertifiedOnly := true })

/-- In the mode that suits the peer. -/
def requestSyncFrom (validatorId : ValidatorId) : NodeM Unit := do
  let n ← Proc.get
  if E.v2 && n.preferredV2SyncModeForPeer validatorId = .certified then
    requestCertifiedSyncFrom E validatorId
  else requestLegacySyncFrom E validatorId

/-- Ask the best peer ahead; false if there is none. -/
def requestBestAvailableSyncFromAheadPeersExcluding (excluded : Option ValidatorId) :
    NodeM Bool := do
  let n ← Proc.get
  match n.bestAheadPeerExcluding E excluded with
  | none => pure false
  | some validatorId =>
    requestSyncFrom E validatorId
    pure true

def requestBestAvailableSyncFromAheadPeers : NodeM Bool :=
  requestBestAvailableSyncFromAheadPeersExcluding E none

def sendFullSnapshotTo (peer : ValidatorId) : NodeM Unit := do
  let n ← Proc.get
  let chain ← check (n.buildChainSnapshot E)
  sendTo E peer (.syncResponse E.me chain)

/-- A segment where one fits, or else the whole chain. -/
def sendBestSyncTo (validatorId : ValidatorId) (knownHeight : Nat) (knownTipHash : HashBytes) :
    NodeM Unit := do
  let n ← Proc.get
  -- `find_peer` comes before the export.
  if !E.config.peers.any (·.validatorId == validatorId) then Proc.throw (.unknownPeer validatorId)
  else
    match ← check (n.buildChainSegment E knownHeight knownTipHash) with
    | some chain => sendTo E validatorId (.syncBlocks E.me chain)
    | none => sendFullSnapshotTo E validatorId

/-- The certified suffix above the anchor shared with a peer, which is returned. -/
def sendBestCertifiedSyncTo (validatorId : ValidatorId) : NodeM (Option SyncQcAnchor) := do
  let n ← Proc.get
  match n.sharedQcAnchorForPeer validatorId with
  | none => pure none
  | some sharedAnchor =>
    match n.buildCertifiedSyncResponseForPeer E [sharedAnchor] with
    | .unavailable _ => pure none
    | .certified response =>
      sendTo E validatorId (.certifiedSyncResponse (.certified response))
      pure (some sharedAnchor)

/-- The blocks above a shared anchor, as a segment. -/
def sendAnchoredSuffixSyncTo (validatorId : ValidatorId) (sharedAnchor : SyncQcAnchor) :
    NodeM Unit := do
  let n ← Proc.get
  if n.localSyncView.height ≤ sharedAnchor.blockNumber then pure ()
  else
    let snapshot ← check (n.syncExportSnapshot E)
    match buildChainSegmentFromChain snapshot (n.blocks.take n.syncExportPrefixLen) n.receipts
        E.config.featureFlags.serviceScoreWindowEpochs sharedAnchor.blockNumber
        sharedAnchor.blockHash maxIncrementalSyncBlocks with
    | none => pure ()
    | some chain => sendTo E validatorId (.syncBlocks E.me chain)

/-- Unless nothing changed since the last push: the certified suffix, then what is above the shared
anchor. -/
def pushBestSyncTo (validatorId : ValidatorId) (knownHeight : Nat) (knownTipHash : HashBytes) :
    NodeM Unit := do
  let n ← Proc.get
  let state := n.syncPushStateForPeer validatorId knownHeight knownTipHash
  if n.lastSyncPushServed[validatorId]? = some state then pure ()
  else
    let anchoredAt ←
      if E.v2 then do
        let _ ← sendBestCertifiedSyncTo E validatorId
        pure ((n.sharedQcAnchorForPeer validatorId).filter
          fun anchor => n.localSyncView.height > anchor.blockNumber)
      else pure none
    match anchoredAt with
    | some sharedAnchor => sendAnchoredSuffixSyncTo E validatorId sharedAnchor
    | none => sendBestSyncTo E validatorId knownHeight knownTipHash
    Proc.modify (·.recordSyncPushServed validatorId state)

/-- A push to every peer that the view is ahead of, a snapshot to those not heard of. -/
def pushSyncToStalePeers : NodeM Unit := do
  let n ← Proc.get
  let view := n.localSyncView
  Proc.forEach E.config.peers fun peer => do
    let n ← Proc.get
    match n.peerSyncStatus[peer.validatorId]? with
    | some status =>
      if localSyncViewIsAheadOfStatus view status then
        pushBestSyncTo E peer.validatorId status.height status.tipHash
      else pure ()
    | none => if view.height > 0 then sendFullSnapshotTo E peer.validatorId else pure ()

/-- After the tip moved, if some peer is known to be behind. -/
def maybePushTipProgressToStalePeers : NodeM Unit := do
  let n ← Proc.get
  let view := n.localSyncView
  let hasKnownStalePeer := n.peerSyncStatus.toList.any fun (validatorId, status) =>
    validatorId != E.me && localSyncViewIsAheadOfStatus view status
  if E.v2 && hasKnownStalePeer then
    broadcastSyncStatus E
    pushSyncToStalePeers E
  else pure ()

/-- After a new certificate: tell all, push, and ask those ahead. -/
def announceCertifiedProgress : NodeM Unit := do
  broadcastSyncStatus E
  pushSyncToStalePeers E
  let _ ← requestBestAvailableSyncFromAheadPeers E
  pure ()

/-- Behind the barrier the best peer ahead is asked alone. -/
def broadcastSyncRequest : NodeM Unit := do
  let n ← Proc.get
  let requested ←
    if n.startupSyncBarrier then requestBestAvailableSyncFromAheadPeers E else pure false
  if requested then pure ()
  else broadcast (.syncRequest E.me n.localSyncView.height n.localSyncView.tipHash)

/-- The periodic round of sync. -/
def runSyncMaintenance : NodeM Unit := do
  broadcastSyncRequest E
  broadcastSyncStatus E
  pushSyncToStalePeers E
  let n ← Proc.get
  if !n.startupSyncBarrier then
    let _ ← requestBestAvailableSyncFromAheadPeers E
    pure ()
  else pure ()

/-- Against the last request of the peer that was answered. -/
def syncRequestIsThrottled (validatorId : ValidatorId) (knownHeight : Nat)
    (knownTipHash : HashBytes) : NodeM Bool := do
  let n ← Proc.get
  match n.lastSyncRequestServed[validatorId]? with
  | none => pure false
  | some served =>
    let view := n.localSyncView
    let t ← now E
    pure (syncRequestShouldThrottle served t knownHeight knownTipHash view.height view.tipHash
      view.highestQcHeight view.highestQcHash)

/-- Remember the request, with the view it was answered from. -/
def recordSyncRequestServed (validatorId : ValidatorId) (knownHeight : Nat)
    (knownTipHash : HashBytes) : NodeM Unit := do
  let t ← now E
  Proc.modify fun n =>
    let view := n.localSyncView
    { n with
      lastSyncRequestServed := n.lastSyncRequestServed.insert validatorId
        { servedAtUnixMillis := t, knownHeight, knownTipHash, servedLocalHeight := view.height
          servedLocalTipHash := view.tipHash, servedLocalHighestQcHeight := view.highestQcHeight
          servedLocalHighestQcHash := view.highestQcHash } }

/-- A pending child of an earlier slot: ask its proposer and another peer for what follows. -/
def maybeRepairStalePendingCertifiedChild (currentSlot : Slot) : NodeM Bool := do
  let n ← Proc.get
  match n.preferredPendingChildForCertifiedHead with
  | none => pure false
  | some pendingChild =>
    if pendingChild.header.slot ≥ currentSlot then pure false
    else
      let proposerId := pendingChild.header.proposerId
      let asksProposer := proposerId != E.me && E.config.peers.any (·.validatorId == proposerId)
      if asksProposer then requestLegacySyncFrom E proposerId else pure ()
      let requested ← requestBestAvailableSyncFromAheadPeersExcluding E
        (some (if asksProposer then proposerId else E.me))
      pure (asksProposer || requested)

/-- At most once in `recoverySyncRetrySlots` slots for the same view. -/
def maybeBroadcastRecoverySyncStatus (currentSlot : Slot) : NodeM Bool := do
  let n ← Proc.get
  let localView := n.localSyncView
  let recent := (n.lastRecoverySyncStatus.map fun memo =>
    memo.localView == localView && decide (currentSlot - memo.slot < recoverySyncRetrySlots)).getD false
  if recent then pure false
  else
    broadcastSyncStatus E
    Proc.modify fun n => { n with lastRecoverySyncStatus := some { slot := currentSlot, localView } }
    pure true

/-- The same for requests, for the same peer and view. -/
def maybeRequestRecoverySyncFromAheadPeer (currentSlot : Slot) : NodeM Bool := do
  let n ← Proc.get
  match n.bestAvailableAheadPeer E with
  | none =>
    Proc.modify fun n => { n with lastRecoverySyncRequest := none }
    pure false
  | some validatorId =>
    let localView := n.localSyncView
    let recent := (n.lastRecoverySyncRequest.map fun memo =>
      memo.peerValidatorId == validatorId && memo.localView == localView &&
        decide (currentSlot - memo.slot < recoverySyncRetrySlots)).getD false
    if recent then pure false
    else
      requestSyncFrom E validatorId
      Proc.modify fun n => { n with
        lastRecoverySyncRequest :=
          some { slot := currentSlot, peerValidatorId := validatorId, localView } }
      pure true

end

end Entangrid
