import Entangrid.Node.Accept

/-!
# Importing chains from peers

Full snapshots (`SyncResponse`), segments (`SyncBlocks`) and certified suffixes
(`CertifiedSyncResponse`): when a node takes one, and what it then replaces.
-/

namespace Entangrid

open NodeM

/-- `&self.blocks[..len]`: panics when `len` is out of range. -/
def slicePrefix (blocks : List Block) (len : Nat) : NodeM (List Block) :=
  if len ≤ blocks.length then pure (blocks.take len) else Proc.panic

/-- `snapshot_branch_quality`: the votes carried by a snapshot count without being verified. -/
def snapshotBranchQuality (chain : List Block) (proposalVotes : List ProposalVote) :
    BranchQuality :=
  let tip := chain.getLast?
  let tipVoteCount := (tip.map fun block =>
    ((proposalVotes.filter (·.blockHash == block.blockHash)).map (·.validatorId)).dedup.length).getD 0
  preQcTipSupportQuality tipVoteCount ((tip.map (·.header.blockNumber)).getD 0)
    ((tip.map (·.header.slot)).getD 0) ((tip.map (·.blockHash)).getD empty_hash)

/-- The overlap loop of `align_chain_segment_to_local_chain`. -/
def checkOverlap (localBlocks : List Block) : Nat → List Block → Except Error Unit
  | _, [] => .ok ()
  | localIndex, block :: rest =>
    match localBlocks[localIndex]? with
    | none => .error .segmentMissingOverlap
    | some localBlock => do
      rejectIf (localBlock.blockHash != block.blockHash) .segmentDiverged
      checkOverlap localBlocks (localIndex + 1) rest

def alignChainSegmentToLocalChain (localBlocks : List Block) (localSnapshot : StateSnapshot)
    (chain : ChainSegment) : Except Error ChainSegment := do
  rejectIf (chain.baseHeight > localSnapshot.height)
    (.segmentHeightMismatch localSnapshot.height chain.baseHeight)
  let expectedBaseTipHash ←
    if chain.baseHeight = 0 then .ok empty_hash
    else
      match localBlocks[chain.baseHeight - 1]? with
      | some block => .ok block.blockHash
      | none => .error .segmentMissingBase
  rejectIf (expectedBaseTipHash != chain.baseTipHash) .segmentTipMismatch
  if chain.baseHeight = localSnapshot.height then do
    rejectIf (chain.baseTipHash != localSnapshot.tipHash) .segmentTipMismatch
    .ok chain
  else do
    let overlap := localSnapshot.height - chain.baseHeight
    rejectIf (overlap > chain.blocks.length) .segmentMissingOverlap
    checkOverlap localBlocks chain.baseHeight (chain.blocks.take overlap)
    .ok { chain with
          baseHeight := localSnapshot.height
          baseTipHash := localSnapshot.tipHash
          blocks := chain.blocks.drop overlap }

inductive CertifiedSyncIgnoreReason where
  | unavailable | emptyPayload | sharedQcMismatch | staleSnapshot
deriving DecidableEq

inductive CertifiedSyncImportOutcome where
  | applied
  | ignored (reason : CertifiedSyncIgnoreReason)
deriving DecidableEq

namespace Node

/-- The chain, ledger and receipts of a snapshot; nothing else is kept of the old blocks. -/
def withSnapshot (n : Node) (ledger : LedgerState) (chain : ChainSnapshot) : Node :=
  { n with
    ledger
    blocks := chain.blocks
    receipts := chain.receipts
    orphanBlocks := []
    pendingCertifiedChildren := [] }

def withSegment (n : Node) (ledger : LedgerState) (blocks : List Block) : Node :=
  { n with ledger, blocks, orphanBlocks := [], pendingCertifiedChildren := [] }

/-- The retain calls at the end of a snapshot or segment import: votes and certificates of other
blocks go, and so do buffered votes of these. -/
def retainEvidenceFor (n : Node) (applied : List Block) : Node :=
  { n with
    proposalVotes := n.proposalVotes.filter fun blockHash byValidator =>
      hasBlock applied blockHash && !byValidator.isEmpty
    quorumCertificates := n.quorumCertificates.filter fun blockHash _ => hasBlock applied blockHash
    bufferedProposalVotes :=
      n.bufferedProposalVotes.filter fun blockHash _ => !hasBlock applied blockHash }

end Node

section
variable (E : Env)

def shouldAdoptChainSegment (n : Node) (localSnapshot : StateSnapshot) (chain : ChainSegment) :
    Bool :=
  if shouldAdoptSnapshot localSnapshot chain.targetSnapshot then true
  else if !E.v2 then false
  else
    match n.highestLocalQc with
    | none => false
    | some localQc =>
      localSnapshot.height > localQc.blockNumber && chain.baseHeight == localQc.blockNumber &&
        chain.baseTipHash == localQc.blockHash &&
        chain.targetSnapshot.height > localQc.blockNumber &&
        chain.targetSnapshot.preference != localSnapshot.preference

def shouldAdoptChainSnapshot (n : Node) (localSnapshot : StateSnapshot) (chain : ChainSnapshot) :
    Bool :=
  if !E.v2 || n.highestLocalQc.isSome then shouldAdoptSnapshot localSnapshot chain.snapshot
  else
    compare (snapshotBranchQuality chain.blocks chain.proposalVotes)
      (n.branchQualityWithExtraTipVote E n.blocks none) == .gt

def shouldPushLocalSnapshotAfterSyncResponse (n : Node) (localSnapshot : StateSnapshot)
    (chain : ChainSnapshot) : Bool :=
  if !E.v2 || n.highestLocalQc.isSome then shouldAdoptSnapshot chain.snapshot localSnapshot
  else
    compare (n.branchQualityWithExtraTipVote E n.blocks none)
      (snapshotBranchQuality chain.blocks chain.proposalVotes) == .gt

variable (fuel : Nat)

/-- The votes of an imported chain: carried ones first, then the buffered ones of each block. -/
def importVotesOfChain (proposalVotes : List ProposalVote) (applied : List Block) : NodeM Unit := do
  Proc.forEach proposalVotes fun vote => do
    let _ ← Proc.attempt (importProposalVote E fuel vote)
    pure ()
  Proc.forEach applied (importBufferedProposalVotesForBlock E fuel)
  Proc.modify (·.retainEvidenceFor applied)
  persistQuorumCertificates

def applyChainSnapshot (chain : ChainSnapshot) : NodeM Unit := do
  let ledger ← check (validateChainSnapshot E chain)
  Proc.modify (·.withSnapshot ledger chain)
  Proc.modify (·.rebuildSeenSets E)
  store (.writeSnapshot ledger.snapshot)
  store (.overwriteBlocks chain.blocks)
  store (.overwriteOrphans [])
  store (.overwriteReceipts chain.receipts)
  importVotesOfChain E fuel chain.proposalVotes chain.blocks

/-- The local chain a segment is laid on: the chain up to the highest certificate when the segment
starts there and the node has gone on, the whole chain otherwise. -/
def syncRepairBaseForSegment (chain : ChainSegment) : NodeM (List Block × StateSnapshot) := do
  let n ← Proc.get
  match if E.v2 then n.highestLocalQc else none with
  | none => pure (n.blocks, n.ledger.snapshot)
  | some localQc =>
    if n.ledger.snapshot.height > localQc.blockNumber ∧ chain.baseHeight = localQc.blockNumber ∧
        chain.baseTipHash = localQc.blockHash then
      let base ← slicePrefix n.blocks localQc.blockNumber
      let ledger ← check (LedgerState.replayBlocks E.hashing E.crypto E.genesis base)
      pure (base, ledger.snapshot)
    else pure (n.blocks, n.ledger.snapshot)

def applyChainSegment (chain : ChainSegment) : NodeM Unit := do
  let (baseBlocks, baseSnapshot) ← syncRepairBaseForSegment E chain
  let chain ← check (alignChainSegmentToLocalChain baseBlocks baseSnapshot chain)
  check (validateSnapshotReceipts E chain.receipts [] [])
  let baseLedger ← check (LedgerState.replayBlocks E.hashing E.crypto E.genesis baseBlocks)
  let ledger ← check (validateSnapshotBlocks E baseLedger baseSnapshot.tipHash chain.blocks)
  check (rejectIf (ledger.snapshot != chain.targetSnapshot) .segmentReplayMismatch)
  let applied := baseBlocks ++ chain.blocks
  Proc.modify (·.withSegment ledger applied)
  Proc.modify (·.rebuildSeenSets E)
  store (.writeSnapshot ledger.snapshot)
  store (.overwriteBlocks applied)
  store (.overwriteOrphans [])
  Proc.forEach chain.receipts fun receipt => do
    let _ ← storeReceipt E receipt
    pure ()
  importVotesOfChain E fuel chain.proposalVotes applied

/-! ## Certified sync -/

/-- The hash the node has at the shared height. -/
def localSharedQc (n : Node) (sharedQcHeight : Nat) : Except Error HashBytes :=
  if sharedQcHeight = 0 then .ok empty_hash
  else
    match n.blocks[sharedQcHeight - 1]? with
    | some block => .ok block.blockHash
    | none => .error .missingSharedQcHeight

/-- The headers, blocks and certificates agree, and every certificate is valid for its block. -/
def validateCertifiedSuffix :
    List CertifiedBlockHeader → List Block → List QuorumCertificate → Except Error Unit
  | header :: headers, block :: blocks, qc :: qcs => do
    rejectIf (header.blockHash != block.blockHash || header.header != block.header)
      .certifiedHeaderMismatch
    validateQuorumCertificateForBlock E qc block
    validateCertifiedSuffix headers blocks qcs
  | _, _, _ => .ok ()

/-- The suffix after a leading copy of the shared block was dropped. -/
def withoutSharedBlock (r : CertifiedSync) : CertifiedSync :=
  if r.sharedQcHeight > 0 ∧ (r.blocks.head?.map (·.blockHash)) = some r.sharedQcHash then
    { r with
      headers := r.headers.drop 1
      blocks := r.blocks.drop 1
      qcs := r.qcs.drop 1 }
  else r

/-- What certified sync learns of the responder. -/
def recordCertifiedResponder (r : CertifiedSync) (candidateHeight : Nat) (n : Node) : Node :=
  let (qcHash, qcHeight) :=
    match r.qcs.getLast? with
    | some qc => (some qc.blockHash, qc.blockNumber)
    | none => (if r.sharedQcHeight > 0 then some r.sharedQcHash else none, r.sharedQcHeight)
  n.recordPeerSyncStatus r.responderId (max r.responderHeight candidateHeight) r.responderTipHash
    qcHash qcHeight
    ((r.qcs.reverse.take certifiedSyncAnchorLimit).map fun qc =>
      { blockHash := qc.blockHash, blockNumber := qc.blockNumber })

/-- The height of the candidate's highest certificate. -/
def candidateHighestQcHeight (r : CertifiedSync) : Nat :=
  (r.qcs.getLast?.map (·.blockNumber)).getD r.sharedQcHeight

def applyCertifiedSuffix (r : CertifiedSync) : NodeM CertifiedSyncImportOutcome := do
  let n ← Proc.get
  let base ← slicePrefix n.blocks r.sharedQcHeight
  let candidateChain := base ++ r.blocks
  let ledger ← check (validateSnapshotBlocks E (.fromGenesis E.genesis) empty_hash candidateChain)
  check (validateCertifiedSuffix E r.headers r.blocks r.qcs)
  Proc.modify (recordCertifiedResponder r ledger.snapshot.height)
  if !shouldAdoptCertifiedSnapshot n.ledger.snapshot
      ((n.highestLocalQc.map (·.blockNumber)).getD 0) ledger.snapshot
      (candidateHighestQcHeight r) then
    pure (.ignored .staleSnapshot)
  else
    adoptCanonicalChain E candidateChain
    Proc.forEach r.qcs fun qc => do
      let _ ← importQuorumCertificate E fuel qc
      pure ()
    Proc.forEach r.serviceAggregates fun aggregate => do
      let _ ← importServiceAggregate E aggregate
      pure ()
    refreshServiceScores E
    Proc.modify (·.clearSyncRepairMemory r.responderId)
    pure .applied

def importCertifiedSyncResponse (response : ChunkedSyncResponse) :
    NodeM CertifiedSyncImportOutcome :=
  match response with
  | .unavailable _ => pure (.ignored .unavailable)
  | .certified r => do
    if r.blocks.isEmpty then pure (.ignored .emptyPayload)
    else if r.blocks.length ≠ r.qcs.length ∨ r.headers.length ≠ r.blocks.length then
      Proc.throw .certifiedLengthMismatch
    else
      let n ← Proc.get
      let localSharedQc ← check (localSharedQc n r.sharedQcHeight)
      if localSharedQc ≠ r.sharedQcHash then pure (.ignored .sharedQcMismatch)
      else
        let r := withoutSharedBlock r
        if r.blocks.isEmpty then
          Proc.modify fun n => n.recordPeerSyncStatus r.responderId r.responderHeight
            r.responderTipHash (some r.sharedQcHash) r.sharedQcHeight
            [{ blockHash := r.sharedQcHash, blockNumber := r.sharedQcHeight }]
          pure (.ignored .staleSnapshot)
        else applyCertifiedSuffix E fuel r

end

end Entangrid
