import Entangrid.Node.Run

/-!
# What a node can do to its state

`Step` lists the updates of the fields that the results rest on (the block lists, the ledger, the
mempool, the votes, the certificates, the receipts, the service evidence, what is known of peers and
the effects), each with the checks under which the code makes it. `Node.Proof.Moves` shows that every
handler is a chain of steps, so an invariant is proved by one case analysis over `Step`. A step that
changes the canonical chain includes the writes to the chain files.

Blocks, votes and chains come from the message being handled (`Source`), or were made by the node
itself.
-/

namespace Entangrid

/-- The fields of the chain state. -/
structure Core where
  ledger : LedgerState
  blocks : List Block
  orphanBlocks : List Block
  pendingCertifiedChildren : List Block
  mempool : BTreeMap HashBytes SignedTransaction
  proposalVotes : VoteMap
  bufferedProposalVotes : VoteMap
  quorumCertificates : BTreeMap HashBytes QuorumCertificate
  effects : List Effect

def Node.core (n : Node) : Core where
  ledger := n.ledger
  blocks := n.blocks
  orphanBlocks := n.orphanBlocks
  pendingCertifiedChildren := n.pendingCertifiedChildren
  mempool := n.mempool
  proposalVotes := n.proposalVotes
  bufferedProposalVotes := n.bufferedProposalVotes
  quorumCertificates := n.quorumCertificates
  effects := n.effects

/-- The other fields that steps other than `book` write. -/
structure Records where
  receipts : List RelayReceipt
  seenReceipts : BTreeSet HashBytes
  seenReceiptEvents : BTreeSet HashBytes
  serviceAttestations : BTreeMap (ValidatorId × Epoch) (BTreeMap ValidatorId ServiceAttestation)
  serviceAggregates : BTreeMap (ValidatorId × Epoch) ServiceAggregate
  seenTransactions : BTreeSet HashBytes
  peerSyncStatus : BTreeMap ValidatorId PeerSyncStatus
  lastSyncRequestServed : BTreeMap ValidatorId ServedSyncRequest
  lastProcessedSlot : Option Slot
  clockReads : Nat

def Node.records (n : Node) : Records where
  receipts := n.receipts
  seenReceipts := n.seenReceipts
  seenReceiptEvents := n.seenReceiptEvents
  serviceAttestations := n.serviceAttestations
  serviceAggregates := n.serviceAggregates
  seenTransactions := n.seenTransactions
  peerSyncStatus := n.peerSyncStatus
  lastSyncRequestServed := n.lastSyncRequestServed
  lastProcessedSlot := n.lastProcessedSlot
  clockReads := n.clockReads

section
variable {n n' : Node} (h : n'.core = n.core)
include h

theorem Node.core_ledger : n'.ledger = n.ledger := congrArg Core.ledger h

theorem Node.core_blocks : n'.blocks = n.blocks := congrArg Core.blocks h

theorem Node.core_orphanBlocks : n'.orphanBlocks = n.orphanBlocks := congrArg Core.orphanBlocks h

theorem Node.core_pending : n'.pendingCertifiedChildren = n.pendingCertifiedChildren :=
  congrArg Core.pendingCertifiedChildren h

theorem Node.core_mempool : n'.mempool = n.mempool := congrArg Core.mempool h

theorem Node.core_proposalVotes : n'.proposalVotes = n.proposalVotes :=
  congrArg Core.proposalVotes h

theorem Node.core_bufferedVotes : n'.bufferedProposalVotes = n.bufferedProposalVotes :=
  congrArg Core.bufferedProposalVotes h

theorem Node.core_certificates : n'.quorumCertificates = n.quorumCertificates :=
  congrArg Core.quorumCertificates h

theorem Node.core_effects : n'.effects = n.effects := congrArg Core.effects h

end

/-! ## Updates that several writes make up -/

/-- The receipt store and the effects. -/
structure ReceiptBook where
  receipts : List RelayReceipt
  seenReceipts : BTreeSet HashBytes
  seenReceiptEvents : BTreeSet HashBytes
  effects : List Effect

def Node.receiptBook (n : Node) : ReceiptBook where
  receipts := n.receipts
  seenReceipts := n.seenReceipts
  seenReceiptEvents := n.seenReceiptEvents
  effects := n.effects

def Node.withReceiptBook (n : Node) (book : ReceiptBook) : Node :=
  { n with
    receipts := book.receipts
    seenReceipts := book.seenReceipts
    seenReceiptEvents := book.seenReceiptEvents
    effects := book.effects }

/-- What `persist_receipt` does to the book. -/
def ReceiptBook.persist (E : Env) (book : ReceiptBook) (receipt : RelayReceipt) : ReceiptBook :=
  if book.seenReceipts.contains (E.hashing.canonicalHash (.receipt receipt)) then book
  else if book.seenReceiptEvents.contains (receiptEventHash E.hashing receipt) then book
  else
    { receipts := book.receipts ++ [receipt]
      seenReceipts := book.seenReceipts.insert (E.hashing.canonicalHash (.receipt receipt))
      seenReceiptEvents := book.seenReceiptEvents.insert (receiptEventHash E.hashing receipt)
      effects := .write (.appendReceipt receipt) :: book.effects }

namespace Node

variable (n : Node) (E : Env)

def withReceipt (receipt : RelayReceipt) : Node :=
  n.withReceiptBook (n.receiptBook.persist E receipt)

def withCommitmentReceipts (receipts : List RelayReceipt) : Node :=
  n.withReceiptBook (receipts.foldl (ReceiptBook.persist E) n.receiptBook)

def written (w : StorageWrite) : Node := n.withEffect (.write w)

/-- The chain extended, with its writes. -/
def extended (ledger : LedgerState) (block : Block) : Node :=
  ((n.extendedBy ledger block).written (.appendBlock block)).written (.writeSnapshot ledger.snapshot)

/-- The end of `adopt_canonical_chain`. -/
def adopted (ledger : LedgerState) (chain : List Block) : Node :=
  let m := ((n.withCanonicalChain ledger chain).withCommitmentReceipts E
    (chain.flatMap (·.commitmentReceipts))).rebuildSeenSets E
  (((m.written (.writeSnapshot ledger.snapshot)).written (.overwriteBlocks chain)).written
    (.overwriteOrphans m.orphanBlocks)).written (.overwriteQuorumCertificates m.certificates)

/-- The chain of a snapshot, with its writes. -/
def snapshotted (ledger : LedgerState) (chain : ChainSnapshot) : Node :=
  (((((n.withSnapshot ledger chain).rebuildSeenSets E).written (.writeSnapshot ledger.snapshot)).written
    (.overwriteBlocks chain.blocks)).written (.overwriteOrphans [])).written
    (.overwriteReceipts chain.receipts)

/-- The chain of a segment, with its writes. -/
def segmented (ledger : LedgerState) (blocks : List Block) : Node :=
  ((((n.withSegment ledger blocks).rebuildSeenSets E).written (.writeSnapshot ledger.snapshot)).written
    (.overwriteBlocks blocks)).written (.overwriteOrphans [])

end Node

/-! ## Where things come from -/

/-- What may arrive: gossiped blocks, blocks in the chains of sync messages, votes, and the chains a
node is offered in a state; the validators of whom something may be recorded, the receipts the node may
sign, the transactions it may admit and the slots it may enter. No block enters the store unless
`takesBlocks`, and none is appended to the chain unless `appends`. -/
structure Source where
  blocks : Set Block := Set.univ
  carried : Set Block := Set.univ
  votes : Set ProposalVote := Set.univ
  snapshots : Core → Set ChainSnapshot := fun _ => Set.univ
  suffixes : Core → Set CertifiedSync := fun _ => Set.univ
  peers : Set ValidatorId := Set.univ
  receipts : Node → Set RelayReceipt := fun _ => Set.univ
  transactions : Set SignedTransaction := Set.univ
  slots : Set Slot := Set.univ
  takesBlocks : Prop := True
  appends : Prop := True

namespace Source

variable (A : Source)

/-- A block offered to the node: by a peer, by itself, or from its orphans. -/
structure Block (n : Node) (block : Entangrid.Block) : Prop where
  takes : A.takesBlocks
  source : block ∈ A.blocks ∨ block ∈ n.builtBlocks ∨ block ∈ n.takenOrphans

/-- The blocks of a chain that a peer sends. -/
structure Carries (blocks : List Entangrid.Block) : Prop where
  takes : A.takesBlocks
  carried : ∀ block ∈ blocks, block ∈ A.carried

/-- A block that arrived on its own or in a chain, or was built by the node. -/
def Arrived (n : Node) (block : Entangrid.Block) : Prop :=
  block ∈ A.blocks ∨ block ∈ A.carried ∨ block ∈ n.builtBlocks

def Vote (n : Node) (vote : ProposalVote) : Prop := vote ∈ A.votes ∨ vote ∈ n.signedVotes

/-- Every block and vote of the node, those in certificates included, arrived or was made by it. -/
structure Covers (n : Node) : Prop where
  blocks : ∀ block ∈ n.knownBlocks, A.Arrived n block
  taken : ∀ block ∈ n.takenOrphans, A.Arrived n block
  votes : ∀ vote, n.Holds vote → A.Vote n vote
  certificates : ∀ (h : HashBytes) (qc : QuorumCertificate), n.quorumCertificates[h]? = some qc →
    ∀ vote ∈ qc.votes, A.Vote n vote

end Source

/-- The writes to `blocks.jsonl` and `state_snapshot.json`. -/
def StorageWrite.ofChain : StorageWrite → Bool
  | .appendBlock _ | .overwriteBlocks _ | .writeSnapshot _ => true
  | _ => false

/-- The effects that are recorded together with an update, which leads to `n'`. -/
@[simp]
def Effect.Bundled (A : Source) (n' : Node) : Effect → Prop
  | .transactionAdmitted tx => tx ∈ A.transactions ∧ n'.mempool[tx.txHash]? = some tx
  | .voteStored .. | .mempoolCleared _ => True
  | _ => False

section
variable (E : Env) (A : Source)

/-- What holds when an effect is recorded on its own. -/
def EffectOk (n : Node) : Effect → Prop
  | .voteSigned vote => ∃ block, buildLocalProposalVote E block = .ok vote
  | .qcBuilt qc => assembledQc E n qc.blockHash = some qc ∧ qc.isWellFormed E.hashing = true
  | .blockBuilt block => ∃ slot epoch timestamp, buildProposal E n slot epoch timestamp = .ok block ∧
      epoch = E.consensus.epochForSlot slot
  | .receiptSigned receipt => receipt ∈ A.receipts n
  | .orphanTaken block => block ∈ n.orphanBlocks
  | .broadcast (.proposalVote vote) => vote ∈ n.signedVotes ∧ ∃ rivals, (vote, rivals) ∈ n.storedVotes
  | .broadcast (.quorumCertificate qc) => ∀ vote ∈ qc.votes, A.Vote n vote
  | .voteStored .. | .transactionAdmitted _ | .mempoolCleared _ => False
  | .write w => w.ofChain = false
  | _ => True

/-- The chains a node adopts, with the reason. -/
inductive ChainSource (n : Node) : List Block → Prop
  | certified (tipHash : HashBytes) {chain : List Block}
      (h : certifiedBranchCandidate E n tipHash = some chain) : ChainSource n chain
  | betterChild {child : Block} {chain : List Block}
      (h : betterUncertifiedChild n = some (child, chain)) : ChainSource n chain
  | voteSupported (tipHash : HashBytes) {chain : List Block}
      (h : voteSupportedCandidate E n tipHash = some chain) : ChainSource n chain
  | competing {block : Block} {chain : List Block}
      (hvalid : validateReceivedBlock E block = .ok ()) (hsource : A.Block n block)
      (hhead : n.certifiedHeadOnlyActive E = false) (hv2 : E.v2 = true)
      (h : competingChain E n block = .ok (some chain))
      (hbetter : n.compareBranchQuality E chain n.blocks = .gt) : ChainSource n chain
  | sync {r : CertifiedSync} {ledger : LedgerState} (hoffered : r ∈ A.suffixes n.core)
      (hsource : A.Carries r.blocks)
      (hlen : r.sharedQcHeight ≤ n.blocks.length)
      (hblocks : validateSnapshotBlocks E (.fromGenesis E.genesis) empty_hash
        (n.blocks.take r.sharedQcHeight ++ r.blocks) = .ok ledger)
      (hadopt : shouldAdoptCertifiedSnapshot n.ledger.snapshot
        ((n.highestLocalQc.map (·.blockNumber)).getD 0) ledger.snapshot
        (candidateHighestQcHeight r) = true) :
      ChainSource n (n.blocks.take r.sharedQcHeight ++ r.blocks)

/-- The part of the local chain a segment is laid on, and the hash its blocks start from. -/
inductive SegmentBase (n : Node) : List Block → HashBytes → Prop
  | whole : SegmentBase n n.blocks n.ledger.snapshot.tipHash
  | certified {qc : QuorumCertificate} {ledger : LedgerState} (hqc : n.highestLocalQc = some qc)
      (hlen : qc.blockNumber ≤ n.blocks.length)
      (hreplay : LedgerState.replayBlocks E.hashing E.crypto E.genesis
        (n.blocks.take qc.blockNumber) = .ok ledger) :
      SegmentBase n (n.blocks.take qc.blockNumber) ledger.snapshot.tipHash

/-- The state after the votes that `vote` replaces were removed. -/
def Node.withoutVotes (n : Node) (votes : List ProposalVote) : Node :=
  votes.foldl Node.removeProposalVoteFromMaps n

inductive Step : Node → Node → Prop
  /-- Only fields outside the core and the records change. -/
  | book {n n' : Node} (h : n'.core = n.core) (hrecords : n'.records = n.records) : Step n n'
  | emit {n : Node} (effect : Effect) (h : EffectOk E A n effect) : Step n (n.withEffect effect)
  | readClock {n : Node} : Step n { n with clockReads := n.clockReads + 1 }
  | enterSlot {n : Node} (slot : Slot) (h : slot ∈ A.slots) :
      Step n { n with lastProcessedSlot := some slot }
  /-- Something is recorded of the peers in `A.peers`. -/
  | recordPeer {n : Node} {statuses : BTreeMap ValidatorId PeerSyncStatus}
      {served : BTreeMap ValidatorId ServedSyncRequest}
      (h : ∀ q ∉ A.peers, statuses[q]? = n.peerSyncStatus[q]? ∧
        served[q]? = n.lastSyncRequestServed[q]?) :
      Step n { n with peerSyncStatus := statuses, lastSyncRequestServed := served }
  -- receipts and service evidence
  | storeReceipt {n : Node} (receipt : RelayReceipt) (h : receiptVerdict E receipt = .ok ()) :
      Step n (n.withReceipt E receipt)
  | commitmentReceipts {n : Node} (block : Block) (h : block ∈ n.blocks) :
      Step n (n.withCommitmentReceipts E block.commitmentReceipts)
  | attest {n : Node} (attestation : ServiceAttestation)
      (h : validateServiceAttestation E attestation = .ok ()) :
      Step n (addServiceAttestation E attestation n)
  | aggregate {n : Node} (aggregate : ServiceAggregate)
      (h : buildServiceAggregate E n aggregate.subjectValidatorId aggregate.epoch = some aggregate) :
      Step n (addServiceAggregate E aggregate n)
  -- the mempool
  | addTx {n : Node} (tx : SignedTransaction) (hnew : tx.txHash ∉ n.seenTransactions)
      (hvalid : validateTxAgainstMempool E n tx = .ok ()) (hsource : tx ∈ A.transactions) :
      Step n ((addTransaction tx n).withEffect (.transactionAdmitted tx))
  /-- The block was appended, and no transaction was admitted since. -/
  | drop {n : Node} (block : Block) (new old : List Effect)
      (h : n.effects = new ++ .write (.appendBlock block) :: old)
      (hnew : ∀ tx, .transactionAdmitted tx ∉ new) :
      Step n ((n.dropFromMempool block.transactions).withEffect
        (.mempoolCleared (block.transactions.map (·.txHash))))
  -- votes
  | replaceVotes {n : Node} (vote : ProposalVote) {conflicts : List ProposalVote}
      (h : n.conflictingVotes E vote = .ok conflicts) : Step n (n.withoutVotes conflicts)
  | storeVote {n : Node} (vote : ProposalVote) (block : Block) {conflicts : List ProposalVote}
      (h : n.conflictingVotes E vote = .ok conflicts)
      (hnew : VoteMap.lookup (n.withoutVotes conflicts).proposalVotes vote.blockHash
        vote.validatorId = none)
      (hknown : n.knownBlock vote.blockHash = some block)
      (hvalid : validateProposalVoteForBlock E vote block = .ok ()) (hsource : A.Vote n vote) :
      Step n ((n.withoutVotes conflicts).addVote vote)
  | bufferVote {n : Node} (vote : ProposalVote) {conflicts : List ProposalVote}
      (h : n.conflictingVotes E vote = .ok conflicts)
      (hnew : VoteMap.lookup (n.withoutVotes conflicts).bufferedProposalVotes vote.blockHash
        vote.validatorId = none)
      (hunknown : n.knownBlock vote.blockHash = none)
      (hvalid : validateProposalVoteSignatureAndSigner E vote = .ok ())
      (hpolicy : validateHybridProposalVotePolicy E vote = .ok ()) (hsource : A.Vote n vote) :
      Step n ((n.withoutVotes conflicts).addBufferedVote vote)
  | dropConflicting {n : Node} (vote : ProposalVote) :
      Step n (n.removeConflictingVotesForCertifiedVote vote)
  | takeBuffered {n : Node} (blockHash : HashBytes) :
      Step n { n with bufferedProposalVotes := n.bufferedProposalVotes.erase blockHash }
  | prune {n : Node} (certifiedHash : HashBytes) (certifiedHeight : Nat) :
      Step n (n.pruneVotesNotExtendingCertifiedBlock certifiedHash certifiedHeight)
  | retainEvidence {n : Node} (applied : List Block) (h : ∀ block ∈ n.knownBlocks, block ∈ applied) :
      Step n (n.retainEvidenceFor applied)
  -- certificates
  | buildQc {n : Node} (qc : QuorumCertificate) (hnew : n.hasQc qc.blockHash = false)
      (h : assembledQc E n qc.blockHash = some qc) : Step n (n.addQc qc)
  | importQc {n : Node} (qc : QuorumCertificate) (block : Block)
      (hnew : n.hasQc qc.blockHash = false) (hknown : n.knownBlock qc.blockHash = some block)
      (hvalid : validateQuorumCertificateForBlock E qc block = .ok ())
      (hsource : ∀ vote ∈ qc.votes, A.Vote n vote) : Step n (n.addQc qc)
  -- blocks
  | addOrphan {n : Node} (block : Block) (hnew : n.knownBlock block.blockHash = none)
      (hvalid : validateReceivedBlock E block = .ok ()) (hsource : A.Block n block) :
      Step n (n.addOrphan block)
  | addPending {n : Node} (block : Block) (hnew : n.knownBlock block.blockHash = none)
      (hvalid : validateReceivedBlock E block = .ok ()) (hsource : A.Block n block)
      (hchild : n.isDirectChildOfCurrentCertifiedHead block = true) :
      Step n (n.addPendingChild block)
  | takeOrphan {n : Node} (index : Nat) :
      Step n { n with orphanBlocks := n.orphanBlocks.eraseIdx index }
  | extend {n : Node} (block : Block) {ledger : LedgerState}
      (hnew : n.knownBlock block.blockHash = none)
      (hvalid : validateReceivedBlock E block = .ok ()) (hsource : A.Block n block)
      (hparent : block.header.parentHash = n.ledger.snapshot.tipHash)
      (happly : n.ledger.applyBlock E.hashing E.crypto block = .ok ledger)
      (hhead : n.certifiedHeadOnlyActive E = false ∨ n.hasQc block.blockHash = true)
      (happends : A.appends) : Step n (n.extended ledger block)
  | adopt {n : Node} {chain : List Block} {ledger : LedgerState} (hsource : ChainSource E A n chain)
      (hreplay : LedgerState.replayBlocks E.hashing E.crypto E.genesis chain = .ok ledger) :
      Step n (n.adopted E ledger chain)
  | applySnapshot {n : Node} {chain : ChainSnapshot} {ledger : LedgerState}
      (hoffered : chain ∈ A.snapshots n.core)
      (hsource : A.Carries chain.blocks)
      (hvalid : validateChainSnapshot E chain = .ok ledger)
      (hadopt : shouldAdoptChainSnapshot E n n.ledger.snapshot chain = true) :
      Step n (n.snapshotted E ledger chain)
  | applySegment {n : Node} {base blocks : List Block} {baseTip : HashBytes}
      {baseLedger ledger : LedgerState} (hsource : A.Carries blocks)
      (hbase : SegmentBase E n base baseTip)
      (hreplay : LedgerState.replayBlocks E.hashing E.crypto E.genesis base = .ok baseLedger)
      (hblocks : validateSnapshotBlocks E baseLedger baseTip blocks = .ok ledger) :
      Step n (n.segmented E ledger (base ++ blocks))

/-- Chains of steps. -/
abbrev Steps : Node → Node → Prop := Relation.ReflTransGen (Step E A)

end

end Entangrid
