import Entangrid.Node.State

/-!
# Branches, certificates and fork choice

The `&self` queries of the runner over its block lists, its votes and its certificates: which block
a hash names, the chain that leads to it, how two chains compare, which block heads the certified
chain and which known blocks extend it.
-/

namespace Entangrid

/-- The height, weighted votes, tip height, tip votes, tip slot and tip hash of a branch. -/
abbrev BranchQuality := Nat × Nat × Nat × Nat × Nat × HashBytes

/-- The quality of a branch without a certificate: only the votes of its tip count. -/
def preQcTipSupportQuality (tipVoteCount tipHeight tipSlot : Nat) (tipHash : HashBytes) :
    BranchQuality :=
  (0, satMul tipVoteCount tipHeight, tipHeight, tipVoteCount, tipSlot, tipHash)

/-- `Iterator::max_by`: the last of the greatest elements. -/
def maxBy {α : Type} (cmp : α → α → Ordering) : List α → Option α
  | [] => none
  | x :: xs => some (xs.foldl (fun best y => if cmp best y = .gt then best else y) x)

/-- The order of the children of a certified head: by slot, then by hash. -/
def compareChildren (left right : Block) : Ordering :=
  (compare left.header.slot right.header.slot).then (compare left.blockHash right.blockHash)

/-- The first block of a list with the hash. -/
def findBlock (blocks : List Block) (blockHash : HashBytes) : Option Block :=
  blocks.find? (·.blockHash == blockHash)

def hasBlock (blocks : List Block) (blockHash : HashBytes) : Bool :=
  blocks.any (·.blockHash == blockHash)

/-- The numbering and linking checks of `build_chain_to_tip`. -/
def numberedFrom (expectedParent : HashBytes) (expectedHeight : Nat) : List Block → Bool
  | [] => true
  | block :: rest =>
    block.header.parentHash == expectedParent && block.header.blockNumber == expectedHeight &&
      numberedFrom block.blockHash (expectedHeight + 1) rest

namespace Node

variable (n : Node)

/-! ## Chains -/

/-- The canonical block, the pending child or the orphan with a hash, in this order. -/
def knownBlock (blockHash : HashBytes) : Option Block :=
  ((findBlock n.blocks blockHash).or (findBlock n.pendingCertifiedChildren blockHash)).or
    (findBlock n.orphanBlocks blockHash)

/-- The map `by_hash` of `build_chain_to_tip`: a later block of the three lists replaces an earlier
one with its hash. -/
def blockByHash (blockHash : HashBytes) : Option Block := findBlock n.knownBlocks.reverse blockHash

/-- The `while` loop of `build_chain_to_tip`, from the tip back. `visited` bounds its rounds by the
number of known blocks, which is the fuel it is given. -/
def walkToGenesis : Nat → HashBytes → List HashBytes → List Block → Option (List Block)
  | 0, _, _, _ => none
  | fuel + 1, currentHash, visited, chain =>
    if currentHash = empty_hash then some chain
    else if visited.contains currentHash then none
    else do
      let block ← n.blockByHash currentHash
      walkToGenesis fuel block.header.parentHash (currentHash :: visited) (block :: chain)

/-- The chain of known blocks from genesis to a tip, if it is numbered and linked. -/
def buildChainToTip (tipHash : HashBytes) : Option (List Block) :=
  match n.walkToGenesis (n.knownBlocks.length + 1) tipHash [] [] with
  | some chain => if numberedFrom empty_hash 1 chain then some chain else none
  | none => none

/-- Two blocks are on one chain if one is on the chain to the other. -/
def branchRelation (leftHash rightHash : HashBytes) : BranchRelation :=
  if leftHash = rightHash then .sameChain
  else
    match n.buildChainToTip leftHash, n.buildChainToTip rightHash with
    | some leftChain, some rightChain =>
      if hasBlock rightChain leftHash || hasBlock leftChain rightHash then .sameChain
      else .incompatible
    | _, _ => .unknown

/-- The chain a block extends; empty for a first block. -/
def buildParentChainForBlock (block : Block) : Option (List Block) :=
  if block.header.blockNumber = 1 ∧ block.header.parentHash = empty_hash then some []
  else n.buildChainToTip block.header.parentHash

/-! ## Certificates on a chain -/

def hasQc (blockHash : HashBytes) : Bool := n.quorumCertificates.contains blockHash

/-- The last block of a chain with a certificate. -/
def latestCertifiedBlock (chain : List Block) : Option Block :=
  chain.reverse.find? fun block => n.hasQc block.blockHash

/-- Its number, 0 without one. -/
def latestCertifiedHeight (chain : List Block) : Nat :=
  ((n.latestCertifiedBlock chain).map (·.header.blockNumber)).getD 0

/-- The certificate of the last certified canonical block. -/
def highestLocalQc : Option QuorumCertificate :=
  n.blocks.reverse.findSome? fun block => n.quorumCertificates[block.blockHash]?

/-- Its block's hash. -/
def highestLockedQcHash : Option HashBytes :=
  (n.blocks.reverse.find? fun block => n.hasQc block.blockHash).map (·.blockHash)

/-- The locked block and its number, from the certificate or else from the block. -/
def currentCertifiedHead : Option (HashBytes × Nat) := do
  let hash ← n.highestLockedQcHash
  let height ← (n.quorumCertificates[hash]?.map (·.blockNumber)).or
    ((n.knownBlock hash).map (·.header.blockNumber))
  some (hash, height)

/-- Once a canonical block is certified, blocks above it wait for certificates of their own. -/
def certifiedHeadOnlyActive (E : Env) : Bool := E.v2 && n.highestLockedQcHash.isSome

/-- A block's parent and number are those of a child of the certified head. -/
def isDirectChildOfCurrentCertifiedHead (block : Block) : Bool :=
  match n.currentCertifiedHead with
  | some (headHash, headHeight) =>
    block.header.parentHash == headHash && block.header.blockNumber == u64Add headHeight 1
  | none => false

/-- The block is a child of the certified head that waits for its certificate. -/
def isPendingCertifiedHeadBlock (block : Block) : Bool :=
  n.isDirectChildOfCurrentCertifiedHead block &&
    hasBlock n.pendingCertifiedChildren block.blockHash

/-- The pending child with the latest slot. -/
def preferredPendingChildForCertifiedHead : Option Block :=
  maxBy compareChildren
    (n.pendingCertifiedChildren.filter n.isDirectChildOfCurrentCertifiedHead)

/-- The known children of the certified head that have no certificate. -/
def uncertifiedChildren : List Block :=
  n.knownBlocks.filter fun block =>
    !n.hasQc block.blockHash && n.isDirectChildOfCurrentCertifiedHead block

/-- The one with the latest slot, the greater hash deciding. -/
def bestKnownUncertifiedChildForCertifiedHead : Option Block :=
  maxBy compareChildren n.uncertifiedChildren

/-- The same blocks, each hash once. -/
def knownUncertifiedChildrenForCertifiedHead : List Block :=
  n.uncertifiedChildren.foldl (fun unique block =>
    if hasBlock unique block.blockHash then unique else unique ++ [block]) []

/-- The canonical block right above the certified head. -/
def currentUncertifiedChildForCertifiedHead : Option Block := do
  let (headHash, _) ← n.currentCertifiedHead
  let tip ← n.blocks.getLast?
  if tip.blockHash = headHash then none
  else
    let chain ← n.buildChainToTip tip.blockHash
    let index ← chain.findIdx? (·.blockHash == headHash)
    chain[index + 1]?

/-! ## Fork choice -/

/-- The stored votes for a block. -/
def voteCount (blockHash : HashBytes) : Nat :=
  (n.proposalVotes[blockHash]?.map (·.size)).getD 0

/-- The votes of a block, with the node's own added for `extraTipVoteFor`. -/
def voteCountWithExtra (E : Env) (extraTipVoteFor : Option HashBytes) (blockHash : HashBytes) : Nat :=
  let receivesExtraLocalVote := extraTipVoteFor == some blockHash &&
    !((n.proposalVotes[blockHash]?.map (·.contains E.me)).getD false)
  n.voteCount blockHash + if receivesExtraLocalVote then 1 else 0

/-- The votes of all blocks of a branch, each weighted with its number. -/
def branchWeightedVoteSupport (E : Env) (chain : List Block) (extraTipVoteFor : Option HashBytes) :
    Nat :=
  chain.foldl (fun sum block =>
    u64Add sum (satMul block.header.blockNumber
      (n.voteCountWithExtra E extraTipVoteFor block.blockHash))) 0

/-- The quality of a branch, as if the node had voted for `extraTipVoteFor`. -/
def branchQualityWithExtraTipVote (E : Env) (chain : List Block)
    (extraTipVoteFor : Option HashBytes) : BranchQuality :=
  let latestCertifiedHeight := n.latestCertifiedHeight chain
  let tip := chain.getLast?
  let tipHeight := (tip.map (·.header.blockNumber)).getD 0
  let tipSlot := (tip.map (·.header.slot)).getD 0
  let tipHash := (tip.map (·.blockHash)).getD empty_hash
  let tipVoteCount :=
    (tip.map fun block => n.voteCountWithExtra E extraTipVoteFor block.blockHash).getD 0
  if latestCertifiedHeight = 0 then
    preQcTipSupportQuality tipVoteCount tipHeight tipSlot tipHash
  else
    (latestCertifiedHeight, n.branchWeightedVoteSupport E chain extraTipVoteFor, tipHeight,
      tipVoteCount, tipSlot, tipHash)

/-- The tip of the chain has a certificate. -/
def tipCertified (chain : List Block) : Bool :=
  (chain.getLast?.map fun block => n.hasQc block.blockHash).getD false

/-- `compare_branch_quality`: certified height first, then, above a certificate, a certified tip and
the certified hash, then the quality of the branch. -/
def compareBranchQuality (E : Env) (candidateChain currentChain : List Block) : Ordering :=
  let candidateCertified := n.latestCertifiedBlock candidateChain
  let currentCertified := n.latestCertifiedBlock currentChain
  let candidateHeight : Nat := (candidateCertified.map (·.header.blockNumber)).getD 0
  let currentHeight : Nat := (currentCertified.map (·.header.blockNumber)).getD 0
  let quality := compare (n.branchQualityWithExtraTipVote E candidateChain none)
    (n.branchQualityWithExtraTipVote E currentChain none)
  (compare candidateHeight currentHeight).then <|
    if candidateHeight > 0 then
      ((compare (n.tipCertified candidateChain) (n.tipCertified currentChain)).then
        (compare ((candidateCertified.map (·.blockHash)).getD empty_hash)
          ((currentCertified.map (·.blockHash)).getD empty_hash))).then quality
    else quality

/-! ## Conflicting votes -/

/-- The votes of a validator in a vote map, in key order. -/
def votesOf (votes : BTreeMap HashBytes (BTreeMap ValidatorId ProposalVote))
    (validatorId : ValidatorId) : List ProposalVote :=
  votes.toList.filterMap fun (_, byValidator) => byValidator[validatorId]?

/-- The stored and the buffered votes of a validator. -/
def heldVotesOf (validatorId : ValidatorId) : List ProposalVote :=
  votesOf n.proposalVotes validatorId ++ votesOf n.bufferedProposalVotes validatorId

/-- Before the first certificate: the candidate is for the own tip, on a branch that compares better,
or the block of the other vote has no known chain. -/
def canReplacePreQcConflictingVote (E : Env) (existing candidate : ProposalVote) : Bool :=
  if existing.blockHash = candidate.blockHash then false
  else if n.blocks.getLast?.map (·.blockHash) ≠ some candidate.blockHash then false
  else
    match n.buildChainToTip existing.blockHash, n.buildChainToTip candidate.blockHash with
    | some existingChain, some candidateChain =>
      n.branchRelation existing.blockHash candidate.blockHash == .incompatible &&
        n.compareBranchQuality E candidateChain existingChain == .gt
    | none, some _ => true
    | _, none => false

/-- After a certificate: both are known children of the certified head, and the candidate is in a
later slot. -/
def canReplaceSiblingVote (existing candidate : ProposalVote) : Bool :=
  match n.currentCertifiedHead, n.knownBlock existing.blockHash, n.knownBlock candidate.blockHash with
  | some (headHash, headHeight), some existingBlock, some candidateBlock =>
    existing.blockNumber == u64Add headHeight 1 &&
      existingBlock.header.parentHash == headHash &&
      candidateBlock.header.parentHash == headHash &&
      candidateBlock.header.slot > existingBlock.header.slot
  | _, _, _ => false

/-- Whether a validator's vote may take the place of an earlier one it conflicts with. -/
def canReplaceConflictingProposalVote (E : Env) (existing candidate : ProposalVote) : Bool :=
  if n.highestLocalQc.isNone then n.canReplacePreQcConflictingVote E existing candidate
  else if !n.certifiedHeadOnlyActive E || existing.blockNumber != candidate.blockNumber then false
  else if n.hasQc existing.blockHash then false
  else n.canReplaceSiblingVote existing candidate

/-- The node's own vote would stand beside one it cannot replace, before any certificate. -/
def localVoteWouldScatterBeforeQc (E : Env) (candidate : ProposalVote) : Bool :=
  if n.certifiedHeadOnlyActive E || n.highestLocalQc.isSome then false
  else (n.heldVotesOf E.me).any fun existing =>
    existing.blockHash != candidate.blockHash &&
      match n.branchRelation existing.blockHash candidate.blockHash with
      | .sameChain => false
      | .incompatible | .unknown => !n.canReplaceConflictingProposalVote E existing candidate

/-- Votes for two blocks of one chain do not conflict. -/
def proposalVoteBranchesAreCompatible (existingHash candidateHash : HashBytes) : Bool :=
  n.branchRelation existingHash candidateHash == .sameChain

/-- What `resolve_conflicting_proposal_vote` does with one existing vote of the same validator. -/
inductive VoteConflict where
  | none | replace | reject
deriving DecidableEq

/-- A vote for the same number, or in the same epoch and slot, conflicts even on one chain. -/
def voteConflict (E : Env) (existing vote : ProposalVote) : VoteConflict :=
  if existing.blockHash = vote.blockHash then .none
  else if n.canReplaceConflictingProposalVote E existing vote then .replace
  else if existing.blockNumber ≠ vote.blockNumber ∧
      ¬(existing.epoch = vote.epoch ∧ existing.slot = vote.slot) ∧
      n.proposalVoteBranchesAreCompatible existing.blockHash vote.blockHash then .none
  else .reject

/-- The votes a new vote replaces, or the error that it conflicts. -/
def conflictingVotes (E : Env) (vote : ProposalVote) : Except Error (List ProposalVote) :=
  let held := n.heldVotesOf vote.validatorId
  if held.any fun existing => n.voteConflict E existing vote = .reject then
    .error .conflictingProposalVote
  else .ok (held.filter fun existing => n.voteConflict E existing vote = .replace)

/-- A vote is kept after a certificate if its block is unknown, lower, or on a chain with the
certified block. -/
def voteExtendsCertifiedBlock (blockHash certifiedHash : HashBytes) (certifiedHeight : Nat) : Bool :=
  if blockHash = certifiedHash then true
  else
    match n.knownBlock blockHash with
    | none => true
    | some block =>
      if block.header.blockNumber < certifiedHeight then true
      else
        match n.buildChainToTip blockHash with
        | some chain => hasBlock chain certifiedHash
        | none => false

end Node

end Entangrid
