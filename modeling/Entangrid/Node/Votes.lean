import Entangrid.Lib.Quorum
import Entangrid.Node.Service

/-!
# Votes, certificates and branch adoption

How a node stores votes and certificates and moves its canonical chain in answer to them. Importing
a vote can complete a certificate, which can move the chain, which can make the node vote itself,
which imports that vote. The functions on this cycle take `castVote`
(`maybe_broadcast_local_proposal_vote`) as a parameter; `maybeBroadcastLocalProposalVote` closes the
cycle, with fuel for its depth.
-/

namespace Entangrid

open NodeM

/-- The votes by block, and by validator under a block. -/
abbrev VoteMap := BTreeMap HashBytes (BTreeMap ValidatorId ProposalVote)

namespace VoteMap

/-- A validator's vote for a block replaces its earlier one for it. -/
def store (votes : VoteMap) (vote : ProposalVote) : VoteMap :=
  votes.insert vote.blockHash ((votes.getD vote.blockHash ∅).insert vote.validatorId vote)

/-- The vote of a validator under a block's hash. -/
def lookup (votes : VoteMap) (blockHash : HashBytes) (validatorId : ValidatorId) :
    Option ProposalVote :=
  (votes.getD blockHash ∅)[validatorId]?

/-- Remove a validator's vote for a block, and the block's entry with its last vote. -/
def remove (votes : VoteMap) (vote : ProposalVote) : VoteMap :=
  match votes[vote.blockHash]? with
  | none => votes
  | some byValidator =>
    let rest := byValidator.erase vote.validatorId
    if rest.isEmpty then votes.erase vote.blockHash else votes.insert vote.blockHash rest

/-- One map of `remove_conflicting_votes_for_certified_vote`: the voter's votes for other blocks of
the same number go. -/
def removeConflicting (votes : VoteMap) (vote : ProposalVote) : VoteMap :=
  votes.filterMap fun blockHash byValidator =>
    let rest :=
      if blockHash ≠ vote.blockHash then
        byValidator.filter fun validatorId existing =>
          !(validatorId == vote.validatorId && existing.blockHash != vote.blockHash &&
            existing.blockNumber == vote.blockNumber)
      else byValidator
    if rest.isEmpty then none else some rest

end VoteMap

/-- More than two thirds of the validators. -/
def quorumCertificateThreshold (validatorCount : Nat) : Nat := Quorum.threshold validatorCount

/-! ## State updates -/

namespace Node

/-- A vote in a certificate is taken even if its voter voted otherwise before. -/
def removeConflictingVotesForCertifiedVote (n : Node) (vote : ProposalVote) : Node :=
  { n with
    proposalVotes := VoteMap.removeConflicting n.proposalVotes vote
    bufferedProposalVotes := VoteMap.removeConflicting n.bufferedProposalVotes vote }

/-- A vote that another one replaces is kept nowhere. -/
def removeProposalVoteFromMaps (n : Node) (vote : ProposalVote) : Node :=
  { n with
    proposalVotes := VoteMap.remove n.proposalVotes vote
    bufferedProposalVotes := VoteMap.remove n.bufferedProposalVotes vote }

/-- The held votes of the same validator for other blocks of the same number. -/
def rivalVotes (n : Node) (vote : ProposalVote) : List ProposalVote :=
  (n.heldVotesOf vote.validatorId).filter fun existing =>
    existing.blockNumber == vote.blockNumber && existing.blockHash != vote.blockHash

/-- The log notes which votes the new one stands beside. -/
def recordStored (n : Node) (vote : ProposalVote) : Node :=
  n.withEffect (.voteStored vote (n.rivalVotes vote))

def addVote (n : Node) (vote : ProposalVote) : Node :=
  { n with proposalVotes := VoteMap.store n.proposalVotes vote }.recordStored vote

def addBufferedVote (n : Node) (vote : ProposalVote) : Node :=
  { n with bufferedProposalVotes := VoteMap.store n.bufferedProposalVotes vote }.recordStored vote

/-- After a certificate, votes for other branches from its height on go. -/
def pruneVotesNotExtendingCertifiedBlock (n : Node) (certifiedHash : HashBytes)
    (certifiedHeight : Nat) : Node :=
  let keep (votes : VoteMap) : VoteMap := votes.filter fun blockHash byValidator =>
    n.voteExtendsCertifiedBlock blockHash certifiedHash certifiedHeight && !byValidator.isEmpty
  { n with
    proposalVotes := keep n.proposalVotes
    bufferedProposalVotes := keep n.bufferedProposalVotes }

def addQc (n : Node) (qc : QuorumCertificate) : Node :=
  { n with quorumCertificates := n.quorumCertificates.insert qc.blockHash qc }

/-- The seen sets are those of what is stored; only the seen transactions also keep what they had. -/
def rebuildSeenSets (n : Node) (E : Env) : Node :=
  { n with
    seenBlocks := .ofList (n.blocks.map (·.blockHash))
    seenReceipts := .ofList (n.receipts.map fun r => E.hashing.canonicalHash (.receipt r))
    seenReceiptEvents := .ofList (n.receipts.map (receiptEventHash E.hashing))
    seenServiceAttestations := .ofList (n.serviceAttestations.toList.flatMap fun (_, byMember) =>
      byMember.toList.map fun (_, a) => serviceAttestationSigningHash E.hashing a)
    seenServiceAggregates := .ofList (n.serviceAggregates.toList.map fun (_, a) =>
      E.hashing.canonicalHash (.aggregate a))
    seenTransactions := n.seenTransactions.insertMany
      (n.blocks.flatMap fun block => block.transactions.map (·.txHash)) }

/-- The three block lists and the ledger of `adopt_canonical_chain`: what is not on the new chain
becomes an orphan. -/
def withCanonicalChain (n : Node) (ledger : LedgerState) (chain : List Block) : Node :=
  { n with
    ledger
    blocks := chain
    orphanBlocks := (n.blocks ++ n.orphanBlocks ++ n.pendingCertifiedChildren).filter fun block =>
      !hasBlock chain block.blockHash
    pendingCertifiedChildren := [] }

end Node

section
variable (E : Env)

/-! ## Validation of votes and certificates -/

/-- What can be checked of a vote for an unknown block. -/
def validateProposalVoteSignatureAndSigner (vote : ProposalVote) : Except Error Unit := do
  rejectIf (!E.genesis.validators.any (·.validatorId == vote.validatorId)) .voteSignerNotValidator
  verifySignature E vote.validatorId (proposalVoteSigningHash E.hashing vote) vote.signature
    .invalidVoteSignature

/-- The vote names the number, epoch and slot of the block. -/
def validateProposalVoteForBlock (vote : ProposalVote) (block : Block) : Except Error Unit := do
  validateProposalVoteSignatureAndSigner E vote
  validateHybridProposalVotePolicy E vote
  rejectIf (vote.blockNumber != block.header.blockNumber || vote.epoch != block.header.epoch ||
    vote.slot != block.header.slot) .voteMetadata

/-- The length of the list of votes is compared with the threshold, and every vote is valid. -/
def validateQuorumCertificateForBlock (qc : QuorumCertificate) (block : Block) :
    Except Error Unit := do
  rejectIf (qc.blockHash != block.blockHash || qc.blockNumber != block.header.blockNumber ||
    qc.epoch != block.header.epoch || qc.slot != block.header.slot) .certificateMetadata
  rejectIf (!qc.isWellFormed E.hashing) .malformedCertificate
  rejectIf (qc.votes.length < quorumCertificateThreshold E.genesis.validators.length)
    .certificateBelowThreshold
  rejectIf (quorumCertificateVoteRoot E.hashing qc.votes != qc.voteRoot) .certificateVoteRoot
  qc.votes.forM fun vote => validateProposalVoteForBlock E vote block

/-! ## Storing votes -/

/-- Remove the votes that a new one replaces, or fail on a conflict. -/
def resolveConflictingProposalVote (vote : ProposalVote) : NodeM Unit := do
  let n ← Proc.get
  let conflicts ← check (n.conflictingVotes E vote)
  Proc.forEach conflicts fun existing => Proc.modify (·.removeProposalVoteFromMaps existing)

/-- The end of `store_proposal_vote` and `store_buffered_proposal_vote`: a vote for a block the
voter already voted for is either the same vote or a conflict. -/
def storeVoteUnlessHeld (existing : Option ProposalVote) (vote : ProposalVote)
    (add : Node → Node) : NodeM Bool :=
  match existing with
  | some held =>
    if proposalVoteSigningHash E.hashing held = proposalVoteSigningHash E.hashing vote ∧
        held.signature = vote.signature then pure false
    else Proc.throw .conflictingProposalVote
  | none => do
    Proc.modify add
    pure true

/-- False if the vote is already held. -/
def storeProposalVote (vote : ProposalVote) : NodeM Bool := do
  resolveConflictingProposalVote E vote
  let n ← Proc.get
  storeVoteUnlessHeld E (VoteMap.lookup n.proposalVotes vote.blockHash vote.validatorId) vote
    (·.addVote vote)

/-- The same for a vote for an unknown block. -/
def storeBufferedProposalVote (vote : ProposalVote) : NodeM Bool := do
  resolveConflictingProposalVote E vote
  let n ← Proc.get
  storeVoteUnlessHeld E (VoteMap.lookup n.bufferedProposalVotes vote.blockHash vote.validatorId)
    vote (·.addBufferedVote vote)

/-! ## Adopting a chain -/

def persistQuorumCertificates : NodeM Unit := do
  let n ← Proc.get
  store (.overwriteQuorumCertificates n.certificates)

/-- Replay a chain and make it the canonical one; the mempool is left as it is. -/
def adoptCanonicalChain (candidateChain : List Block) : NodeM Unit := do
  let ledger ← check (LedgerState.replayBlocks E.hashing E.crypto E.genesis candidateChain)
  Proc.modify (·.withCanonicalChain ledger candidateChain)
  importCommitmentReceipts E (candidateChain.flatMap (·.commitmentReceipts))
  Proc.modify (·.rebuildSeenSets E)
  let n ← Proc.get
  store (.writeSnapshot n.ledger.snapshot)
  store (.overwriteBlocks n.blocks)
  store (.overwriteOrphans n.orphanBlocks)
  persistQuorumCertificates

/-- The guards of `maybe_adopt_certified_branch`. -/
def certifiedBranchCandidate (n : Node) (candidateTipHash : HashBytes) : Option (List Block) := do
  let candidateChain ← n.buildChainToTip candidateTipHash
  if candidateChain.isEmpty then none
  else if n.blocks.getLast?.map (·.blockHash) ≠ some candidateTipHash ∧
      hasBlock n.blocks candidateTipHash then none
  else if n.compareBranchQuality E candidateChain n.blocks ≠ .gt then none
  else some candidateChain

/-- Move to the chain of a certified tip if it compares better. -/
def maybeAdoptCertifiedBranch (candidateTipHash : HashBytes) : NodeM Bool := do
  let n ← Proc.get
  match certifiedBranchCandidate E n candidateTipHash with
  | none => pure false
  | some candidateChain =>
    adoptCanonicalChain E candidateChain
    pure true

/-- Whether a chain contains the block of the highest certificate on the canonical chain. -/
def containsLockedQc (n : Node) (chain : List Block) : Bool :=
  match n.highestLockedQcHash with
  | some lockedQcHash => hasBlock chain lockedQcHash
  | none => true

/-! ## Certificates -/

/-- The certificate `maybe_build_qc` assembles from the stored votes of a known block, once there
are enough of them. -/
def assembledQc (n : Node) (blockHash : HashBytes) : Option QuorumCertificate := do
  let block ← n.knownBlock blockHash
  let byValidator ← n.proposalVotes[blockHash]?
  if byValidator.size < quorumCertificateThreshold E.genesis.validators.length then none
  else
    let votes := byValidator.toList.map (·.2)
    some
      { blockHash, blockNumber := block.header.blockNumber, epoch := block.header.epoch
        slot := block.header.slot, voteRoot := quorumCertificateVoteRoot E.hashing votes, votes }

/-- The certificate of a block, held or assembled now. -/
def maybeBuildQc (blockHash : HashBytes) : NodeM (Option QuorumCertificate) := do
  let n ← Proc.get
  match n.quorumCertificates[blockHash]? with
  | some existing => pure (some existing)
  | none =>
    match assembledQc E n blockHash with
    | none => pure none
    | some qc =>
      if !qc.isWellFormed E.hashing then Proc.throw .builtMalformedCertificate
      else
        Proc.modify (·.addQc qc)
        emit (.qcBuilt qc)
        store (.appendQuorumCertificate qc)
        Proc.modify (·.pruneVotesNotExtendingCertifiedBlock qc.blockHash qc.blockNumber)
        pure (some qc)

/-! ## The voting cycle -/

section Cycle
variable (castVote : Block → NodeM Unit)

/-- The child and the chain `maybe_adopt_better_uncertified_child_for_certified_head` moves to. -/
def betterUncertifiedChild (n : Node) : Option (Block × List Block) := do
  let knownChildren := n.knownUncertifiedChildrenForCertifiedHead
  if knownChildren.isEmpty then none
  else
    let bestChild ← n.bestKnownUncertifiedChildForCertifiedHead
    let moves :=
      match n.currentUncertifiedChildForCertifiedHead with
      | some currentChild =>
        !(bestChild.blockHash == currentChild.blockHash ||
          bestChild.header.slot ≤ currentChild.header.slot)
      | none => !(knownChildren.length < 2)
    if !moves then none
    else do
      let bestChain ← n.buildChainToTip bestChild.blockHash
      some (bestChild, bestChain)

/-- Move to the child of the certified head with the latest slot, and vote for it. -/
def maybeAdoptBetterUncertifiedChildWith : NodeM Bool := do
  let n ← Proc.get
  match betterUncertifiedChild n with
  | none => pure false
  | some (bestChild, bestChain) =>
    adoptCanonicalChain E bestChain
    castVote bestChild
    pure true

/-- Vote for the own tip while nothing is certified. -/
def maybeBroadcastLocalVoteForCurrentPreQcTipWith : NodeM Unit := do
  let n ← Proc.get
  if !E.v2 || n.highestLocalQc.isSome then pure ()
  else
    match n.blocks.getLast? with
    | some tip => castVote tip
    | none => pure ()

/-- The guards of `maybe_adopt_vote_supported_branch`. -/
def voteSupportedCandidate (n : Node) (candidateTipHash : HashBytes) : Option (List Block) := do
  if !E.v2 || n.certifiedHeadOnlyActive E then none
  else
    let candidateChain ← n.buildChainToTip candidateTipHash
    if !containsLockedQc n candidateChain then none
    else if n.compareBranchQuality E candidateChain n.blocks ≠ .gt then none
    else some candidateChain

/-- Move to a branch whose votes make it compare better, and vote for its tip. -/
def maybeAdoptVoteSupportedBranchWith (candidateTipHash : HashBytes) : NodeM Bool := do
  let n ← Proc.get
  match voteSupportedCandidate E n candidateTipHash with
  | none => pure false
  | some candidateChain =>
    adoptCanonicalChain E candidateChain
    maybeBroadcastLocalVoteForCurrentPreQcTipWith E castVote
    pure true

/-- What a complete certificate sets off: adoption, and the announcement if it is new. -/
def maybeFinalizeQuorumCertificateWith (blockHash : HashBytes) :
    NodeM (Option QuorumCertificate) := do
  let n ← Proc.get
  let alreadyHadQc := n.hasQc blockHash
  match ← maybeBuildQc E blockHash with
  | none => pure none
  | some qc =>
    let _ ← maybeAdoptCertifiedBranch E qc.blockHash
    let _ ← maybeAdoptBetterUncertifiedChildWith E castVote
    if !alreadyHadQc then
      broadcast (.quorumCertificate qc)
      announceCertifiedProgress E
    else pure ()
    pure (some qc)

/-- What follows a vote that was stored: a certificate, or else a branch with better support. -/
def advanceAfterVoteWith (blockHash : HashBytes) : NodeM Unit := do
  match ← maybeFinalizeQuorumCertificateWith E castVote blockHash with
  | some _ => pure ()
  | none =>
    let _ ← maybeAdoptVoteSupportedBranchWith E castVote blockHash
    pure ()

/-- A vote for an unknown block is buffered; one for a known block may complete a certificate. -/
def importProposalVoteWith (vote : ProposalVote) : NodeM Bool := do
  if !E.v2 then Proc.throw .votesRequireV2
  else
    check (validateProposalVoteSignatureAndSigner E vote)
    check (validateHybridProposalVotePolicy E vote)
    let n ← Proc.get
    match n.knownBlock vote.blockHash with
    | none => storeBufferedProposalVote E vote
    | some block =>
      if n.recoverySyncOnlyActive E && hasBlock n.pendingCertifiedChildren block.blockHash then
        pure false
      else
        check (validateProposalVoteForBlock E vote block)
        let inserted ← storeProposalVote E vote
        if inserted then advanceAfterVoteWith E castVote vote.blockHash else pure ()
        pure inserted

end Cycle

/-- The node's own vote for a block. -/
def buildLocalProposalVote (block : Block) : Except Error ProposalVote := do
  let unsigned : ProposalVote :=
    { validatorId := E.me, blockHash := block.blockHash, blockNumber := block.header.blockNumber
      epoch := block.header.epoch, slot := block.header.slot, signature := {} }
  let signature ← ofCrypto (E.crypto.sign E.me (proposalVoteSigningHash E.hashing unsigned))
  .ok { unsigned with signature }

/-- One level of the cycle: sign a vote, import it, and broadcast it if it was new. -/
def maybeBroadcastLocalProposalVoteWith (castVote : Block → NodeM Unit) (block : Block) :
    NodeM Unit := do
  if !E.v2 then pure ()
  else
    let vote ← check (buildLocalProposalVote E block)
    emit (.voteSigned vote)
    let n ← Proc.get
    if n.localVoteWouldScatterBeforeQc E vote then pure ()
    else
      match ← Proc.attempt (importProposalVoteWith E castVote vote) with
      | .ok imported => if imported then broadcast (.proposalVote vote) else pure ()
      | .error e => if e.isVoteConflict then pure () else Proc.throw e

/-- The cycle, as deep as the fuel goes. -/
def maybeBroadcastLocalProposalVote : Nat → Block → NodeM Unit
  | 0 => fun _ => Proc.outOfFuel
  | fuel + 1 => maybeBroadcastLocalProposalVoteWith E (maybeBroadcastLocalProposalVote fuel)

section Closed
variable (fuel : Nat)

def importProposalVote (vote : ProposalVote) : NodeM Bool :=
  importProposalVoteWith E (maybeBroadcastLocalProposalVote E fuel) vote

def maybeFinalizeQuorumCertificate (blockHash : HashBytes) : NodeM (Option QuorumCertificate) :=
  maybeFinalizeQuorumCertificateWith E (maybeBroadcastLocalProposalVote E fuel) blockHash

def maybeAdoptBetterUncertifiedChildForCertifiedHead : NodeM Bool :=
  maybeAdoptBetterUncertifiedChildWith E (maybeBroadcastLocalProposalVote E fuel)

def maybeBroadcastLocalVoteForCurrentPreQcTip : NodeM Unit :=
  maybeBroadcastLocalVoteForCurrentPreQcTipWith E (maybeBroadcastLocalProposalVote E fuel)

/-! ## Importing certificates and buffered votes -/

/-- The vote-storing loop of `import_quorum_certificate` and `restore_quorum_certificates`. -/
def storeCertifiedVotes (votes : List ProposalVote) : NodeM Unit :=
  Proc.forEach votes fun vote => do
    Proc.modify (·.removeConflictingVotesForCertifiedVote vote)
    let _ ← storeProposalVote E vote
    pure ()

/-- The certified block has to be known; its votes are stored over conflicting ones. -/
def importQuorumCertificate (qc : QuorumCertificate) : NodeM Bool := do
  if !E.v2 then Proc.throw .certificatesRequireV2
  else
    let n ← Proc.get
    match n.knownBlock qc.blockHash with
    | none => Proc.throw .unknownCertifiedBlock
    | some block =>
      check (validateQuorumCertificateForBlock E qc block)
      storeCertifiedVotes E qc.votes
      let n ← Proc.get
      if n.hasQc qc.blockHash then pure false
      else
        Proc.modify (·.addQc qc)
        store (.appendQuorumCertificate qc)
        Proc.modify (·.pruneVotesNotExtendingCertifiedBlock qc.blockHash qc.blockNumber)
        let _ ← maybeAdoptCertifiedBranch E qc.blockHash
        let _ ← maybeAdoptBetterUncertifiedChildForCertifiedHead E fuel
        pure true

/-- When the block arrives, its votes are imported; errors are dropped. -/
def importBufferedProposalVotesForBlock (block : Block) : NodeM Unit := do
  let n ← Proc.get
  match n.bufferedProposalVotes[block.blockHash]? with
  | none => pure ()
  | some byValidator =>
    Proc.modify fun n =>
      { n with bufferedProposalVotes := n.bufferedProposalVotes.erase block.blockHash }
    Proc.forEach (byValidator.toList.map (·.2)) fun vote => do
      let _ ← Proc.attempt (importProposalVote E fuel vote)
      pure ()

/-! ## Competing blocks -/

/-- The parent chain of a competing block followed by the block, when it keeps the locked
certificate and replays. -/
def competingChain (n : Node) (block : Block) : Except Error (Option (List Block)) :=
  match n.buildParentChainForBlock block with
  | none => .ok none
  | some parentChain =>
    if !containsLockedQc n parentChain then .ok none
    else do
      let ledger ← LedgerState.replayBlocks E.hashing E.crypto E.genesis parentChain
      let _ ← ledger.applyBlock E.hashing E.crypto block
      .ok (some (parentChain ++ [block]))

/-- Its chain with the node's vote would not be worse than the own one. -/
def canVoteForCompetingBlock (n : Node) (block : Block) : Except Error Bool := do
  match ← competingChain E n block with
  | none => .ok false
  | some candidateChain =>
    .ok (compare (n.branchQualityWithExtraTipVote E candidateChain (some block.blockHash))
      (n.branchQualityWithExtraTipVote E n.blocks none) != .lt)

def maybeBroadcastVoteForCompetingBlock (block : Block) : NodeM Unit := do
  if !E.v2 then pure ()
  else
    let n ← Proc.get
    let canVote ← check (canVoteForCompetingBlock E n block)
    if canVote then maybeBroadcastLocalProposalVote E fuel block else pure ()

/-- Before the first certificate, move to the chain of a competing block that compares better. -/
def maybeAdoptPreferredCompetingBranch (block : Block) : NodeM Bool := do
  let n ← Proc.get
  if !E.v2 || n.certifiedHeadOnlyActive E then pure false
  else
    match ← check (competingChain E n block) with
    | none => pure false
    | some candidateChain =>
      if n.compareBranchQuality E candidateChain n.blocks ≠ .gt then pure false
      else
        adoptCanonicalChain E candidateChain
        maybeBroadcastLocalVoteForCurrentPreQcTip E fuel
        pure true

end Closed

end

end Entangrid
