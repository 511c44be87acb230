import Entangrid.Node.Votes

/-!
# Accepting blocks

`accept_block` and `try_promote_orphans`. A valid block extends the canonical chain, or waits as a
child of the certified head, or is kept as an orphan that may still win the fork choice.
-/

namespace Entangrid

open NodeM

namespace Node

def addOrphan (n : Node) (block : Block) : Node :=
  { n with orphanBlocks := n.orphanBlocks ++ [block] }

def addPendingChild (n : Node) (block : Block) : Node :=
  { n with pendingCertifiedChildren := n.pendingCertifiedChildren ++ [block] }

/-- The canonical chain extended by a block that leads to `ledger`. -/
def extendedBy (n : Node) (ledger : LedgerState) (block : Block) : Node :=
  { n with
    ledger
    seenBlocks := n.seenBlocks.insert block.blockHash
    blocks := n.blocks ++ [block] }

def dropFromMempool (n : Node) (transactions : List SignedTransaction) : Node :=
  { n with mempool := transactions.foldl (fun mempool tx => mempool.erase tx.txHash) n.mempool }

end Node

section
variable (E : Env)

/-- The checks of `accept_block` that do not look at the node. -/
def validateReceivedBlock (block : Block) : Except Error Unit := do
  rejectIf (blockBodyHash E.hashing block != block.blockHash) .blockHashMismatch
  verifySignature E block.header.proposerId block.blockHash block.signature .invalidBlockSignature
  rejectIf (block.header.proposerId != E.consensus.proposerForSlot block.header.slot)
    .unexpectedProposer
  rejectIf (E.hashing.canonicalHash (.transactions block.transactions) !=
    block.header.transactionsRoot) .transactionsRootMismatch
  rejectIf (topologyRootOf E.hashing block != block.header.topologyRoot) .topologyRootMismatch
  validateBlockCommitment E E.config.featureFlags.serviceScoreWeights block
  block.transactions.forM (validateHybridTransactionPolicy E)
  validateHybridBlockPolicy E block

def shouldEnforceServiceGatingForBlock (localProposal : Bool) (epoch : Epoch) : Bool :=
  E.config.featureFlags.enableServiceGating && localProposal &&
    epoch ≥ E.config.featureFlags.serviceGatingStartEpoch

/-- Whether gating is enforced for a block, and the score it is enforced with. -/
def serviceGatingForBlock (n : Node) (block : Block) (localProposal : Bool) : Bool × Option F64 :=
  if shouldEnforceServiceGatingForBlock E localProposal block.header.epoch then
    if E.v2 then
      match v2GatingState E n block.header.proposerId block.header.epoch with
      | .allowNoEvidence | .allowInsufficientEvidence => (false, none)
      | .allowScore score | .rejectScore score => (true, some score)
    else (true, some (serviceScoreForValidator n block.header.proposerId))
  else (false, none)

/-- The checks and the replay of a block whose parent is the tip. -/
def validateExtension (n : Node) (block : Block) (localProposal : Bool) :
    Except Error LedgerState := do
  let (enforced, serviceScore) := serviceGatingForBlock E n block localProposal
  E.consensus.validateBlockBasic block n.ledger.snapshot.tipHash serviceScore enforced
    (serviceGatingThreshold E)
  n.ledger.applyBlock E.hashing E.crypto block

variable (fuel : Nat)

/-- A block whose parent is not the tip. -/
def acceptCompetingBlock (block : Block) : NodeM BlockAcceptance := do
  let n ← Proc.get
  let directCertifiedChild := n.isDirectChildOfCurrentCertifiedHead block
  if hasBlock n.orphanBlocks block.blockHash then pure ()
  else
    Proc.modify (·.addOrphan block)
    store (.appendOrphan block)
  importBufferedProposalVotesForBlock E fuel block
  if directCertifiedChild then
    let _ ← maybeAdoptBetterUncertifiedChildForCertifiedHead E fuel
    pure ()
  else pure ()
  let n ← Proc.get
  if directCertifiedChild && n.ledger.snapshot.tipHash == block.blockHash then pure .accepted
  else
    maybeBroadcastVoteForCompetingBlock E fuel block
    let _ ← maybeFinalizeQuorumCertificate E fuel block.blockHash
    let adopted ← maybeAdoptPreferredCompetingBranch E fuel block
    let n ← Proc.get
    if adopted || n.ledger.snapshot.tipHash == block.blockHash then pure .accepted
    else pure .orphan

/-- The votes a pending child gets when it arrives. -/
def supportPendingChild (block : Block) : NodeM Unit := do
  let n ← Proc.get
  if n.recoverySyncOnlyActive E then pure ()
  else
    importBufferedProposalVotesForBlock E fuel block
    let n ← Proc.get
    let shouldSupportBlock := (n.preferredPendingChildForCertifiedHead.map
      (·.blockHash == block.blockHash)).getD false
    if shouldSupportBlock then maybeBroadcastLocalProposalVote E fuel block else pure ()
    let _ ← maybeFinalizeQuorumCertificate E fuel block.blockHash
    pure ()

/-- A valid child of the tip without a certificate, while a certified head is locked. -/
def acceptAboveCertifiedHead (block : Block) : NodeM BlockAcceptance := do
  let n ← Proc.get
  if n.currentCertifiedHead.isNone then pure .orphan
  else if n.isDirectChildOfCurrentCertifiedHead block then
    if hasBlock n.pendingCertifiedChildren block.blockHash then pure ()
    else Proc.modify (·.addPendingChild block)
    supportPendingChild E fuel block
    let _ ← maybeAdoptBetterUncertifiedChildForCertifiedHead E fuel
    let n ← Proc.get
    if n.ledger.snapshot.tipHash = block.blockHash then pure .accepted else pure .orphan
  else
    if hasBlock n.orphanBlocks block.blockHash then pure ()
    else Proc.modify (·.addOrphan block)
    pure .orphan

/-- A valid child of the tip that becomes the tip. -/
def acceptExtension (block : Block) (nextLedger : LedgerState) : NodeM BlockAcceptance := do
  Proc.modify (·.extendedBy nextLedger block)
  store (.appendBlock block)
  store (.writeSnapshot nextLedger.snapshot)
  importCommitmentReceipts E block.commitmentReceipts
  importBufferedProposalVotesForBlock E fuel block
  let _ ← maybeFinalizeQuorumCertificate E fuel block.blockHash
  Proc.modify (·.dropFromMempool block.transactions)
  emit (.mempoolCleared (block.transactions.map (·.txHash)))
  maybeBroadcastLocalProposalVote E fuel block
  let _ ← Proc.attempt (maybePushTipProgressToStalePeers E)
  pure .accepted

def acceptBlock (block : Block) (localProposal : Bool) : NodeM BlockAcceptance := do
  let n ← Proc.get
  if (n.knownBlock block.blockHash).isSome then pure .duplicate
  else
    check (validateReceivedBlock E block)
    if block.header.parentHash ≠ n.ledger.snapshot.tipHash then acceptCompetingBlock E fuel block
    else
      let nextLedger ← check (validateExtension E n block localProposal)
      if n.certifiedHeadOnlyActive E && !n.hasQc block.blockHash then
        acceptAboveCertifiedHead E fuel block
      else acceptExtension E fuel block nextLedger

/-! ## Orphans -/

/-- The place of the first orphan whose parent is the tip. -/
def promotableOrphan (n : Node) : Option Nat :=
  n.orphanBlocks.findIdx? (·.header.parentHash == n.ledger.snapshot.tipHash)

/-- One round of the loop: take the orphan out and offer it again. -/
def promoteOrphan (index : Nat) : NodeM Unit := do
  let n ← Proc.get
  match n.orphanBlocks[index]? with
  | none => pure ()
  | some orphan =>
    emit (.orphanTaken orphan)
    Proc.modify fun n => { n with orphanBlocks := n.orphanBlocks.eraseIdx index }
    let _ ← Proc.attempt (acceptBlock E fuel orphan false)
    pure ()

/-- `try_promote_orphans`, with fuel for its rounds. -/
def tryPromoteOrphans : Nat → NodeM Unit
  | 0 => Proc.outOfFuel
  | rounds + 1 => do
    let n ← Proc.get
    match promotableOrphan n with
    | none => pure ()
    | some index =>
      promoteOrphan E fuel index
      tryPromoteOrphans rounds

end

end Entangrid
