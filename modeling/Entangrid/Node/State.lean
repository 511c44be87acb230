import Entangrid.Consensus
import Entangrid.Ledger
import Entangrid.Lib.Proc

/-!
# The state of a running node (`NodeRunner`)

The mutable fields of `NodeRunner`, what it reads from its surroundings (`Env`) and what it does to
them (`Effect`). A `&mut self` method is a `NodeM`; a `&self` method is a function of the node.

Left out: the metrics, the event log and `latest_service_counters`, which nothing reads back.
Storage writes and sends to configured peers succeed; the clock is an arbitrary sequence of
readings, and a node counts how many it has taken.
-/

namespace Entangrid

/-- What the node reads and never writes. -/
structure Env where
  hashing : Hashing
  crypto : CryptoBackend
  genesis : GenesisConfig
  config : NodeConfig
  /-- `compute_service_score_with_weights`. -/
  score : ServiceCounters → ServiceScoreWeights → F64
  /-- The successive readings of `now_unix_millis`. -/
  clock : Nat → Nat

def Env.consensus (E : Env) : ConsensusEngine :=
  { hashing := E.hashing, genesis := E.genesis, score := E.score }

def Env.v2 (E : Env) : Bool := E.config.featureFlags.consensusV2

/-- The node's own id. -/
def Env.me (E : Env) : ValidatorId := E.config.validatorId

/-! ## Records of the runner -/

inductive BranchRelation where
  | sameChain | incompatible | unknown
deriving DecidableEq

inductive BlockAcceptance where
  | accepted | duplicate | orphan
deriving DecidableEq

structure ServedSyncRequest where
  servedAtUnixMillis : Nat
  knownHeight : Nat
  knownTipHash : HashBytes
  servedLocalHeight : Nat
  servedLocalTipHash : HashBytes
  servedLocalHighestQcHeight : Nat
  servedLocalHighestQcHash : Option HashBytes
deriving DecidableEq

structure ServedSyncPush where
  peerHeight : Nat
  peerTipHash : HashBytes
  peerHighestQcHash : Option HashBytes
  peerHighestQcHeight : Nat
  localHeight : Nat
  localTipHash : HashBytes
  localHighestQcHash : Option HashBytes
  localHighestQcHeight : Nat
deriving DecidableEq

structure PeerSyncStatus where
  height : Nat
  tipHash : HashBytes
  tipLastSlot : Nat
  highestQcHash : Option HashBytes
  highestQcHeight : Nat
  recentQcAnchors : List SyncQcAnchor
deriving DecidableEq

structure LocalSyncView where
  height : Nat
  tipHash : HashBytes
  tipLastSlot : Nat
  highestQcHash : Option HashBytes
  highestQcHeight : Nat
deriving DecidableEq

structure RecoverySyncRequestMemo where
  slot : Nat
  peerValidatorId : ValidatorId
  localView : LocalSyncView
deriving DecidableEq

structure RecoverySyncStatusMemo where
  slot : Nat
  localView : LocalSyncView
deriving DecidableEq

inductive V2SyncMode where
  | certified | legacy
deriving DecidableEq

inductive PeerMessageClass where
  | syncControl | transactionGossip | receiptGossip
deriving DecidableEq

structure PeerMessageWindow where
  startedAtUnixMillis : Nat := 0
  syncControlMessages : Nat := 0
  transactionGossipMessages : Nat := 0
  receiptGossipMessages : Nat := 0
deriving DecidableEq, Inhabited

/-! ## Effects -/

/-- The files a node writes. -/
inductive StorageWrite where
  | appendBlock (block : Block)
  | overwriteBlocks (blocks : List Block)
  | writeSnapshot (snapshot : StateSnapshot)
  | appendReceipt (receipt : RelayReceipt)
  | overwriteReceipts (receipts : List RelayReceipt)
  | appendOrphan (block : Block)
  | overwriteOrphans (blocks : List Block)
  | appendServiceAttestation (attestation : ServiceAttestation)
  | appendServiceAggregate (aggregate : ServiceAggregate)
  | appendQuorumCertificate (qc : QuorumCertificate)
  | overwriteQuorumCertificates (qcs : List QuorumCertificate)

/-- What the node does to the outside. The last seven leave no trace there: they record the votes it
signs and stores, the certificates and blocks it builds, the receipts it signs, the orphans it offers
itself again and the transactions it admits. -/
inductive Effect where
  /-- `network.broadcast` and `network.broadcast_control`. -/
  | broadcast (message : ProtocolMessage)
  /-- `network.send_to` and `network.send_control_to`. -/
  | sendTo (peer : ValidatorId) (message : ProtocolMessage)
  | write (w : StorageWrite)
  | voteSigned (vote : ProposalVote)
  /-- A vote was stored or buffered, next to these votes of its validator for other blocks of the
  same number. -/
  | voteStored (vote : ProposalVote) (rivals : List ProposalVote)
  | qcBuilt (qc : QuorumCertificate)
  | blockBuilt (block : Block)
  | receiptSigned (receipt : RelayReceipt)
  | orphanTaken (block : Block)
  | transactionAdmitted (transaction : SignedTransaction)
  /-- The transactions of an appended block, by hash, were taken out of the mempool. -/
  | mempoolCleared (txHashes : List HashBytes)

/-! ## The node -/

structure Node where
  ledger : LedgerState
  blocks : List Block := []
  receipts : List RelayReceipt := []
  orphanBlocks : List Block := []
  pendingCertifiedChildren : List Block := []
  mempool : BTreeMap HashBytes SignedTransaction := ∅
  seenTransactions : BTreeSet HashBytes := ∅
  seenBlocks : BTreeSet HashBytes := ∅
  seenReceipts : BTreeSet HashBytes := ∅
  seenReceiptEvents : BTreeSet HashBytes := ∅
  serviceAttestations : BTreeMap (ValidatorId × Epoch) (BTreeMap ValidatorId ServiceAttestation) := ∅
  serviceAggregates : BTreeMap (ValidatorId × Epoch) ServiceAggregate := ∅
  proposalVotes : BTreeMap HashBytes (BTreeMap ValidatorId ProposalVote) := ∅
  bufferedProposalVotes : BTreeMap HashBytes (BTreeMap ValidatorId ProposalVote) := ∅
  quorumCertificates : BTreeMap HashBytes QuorumCertificate := ∅
  seenServiceAttestations : BTreeSet HashBytes := ∅
  seenServiceAggregates : BTreeSet HashBytes := ∅
  lastProcessedSlot : Option Slot := none
  lastLoggedEpoch : Option Epoch := none
  lastHeartbeatSlot : Option Slot := none
  lastProposedSlot : Option Slot := none
  startupSyncBarrier : Bool := false
  latestServiceScores : BTreeMap ValidatorId F64 := ∅
  failedSessions : Nat := 0
  invalidReceipts : Nat := 0
  observedFailedSessions : BTreeSet (Epoch × ValidatorId × ValidatorId) := ∅
  observedSuccessfulSessions : BTreeSet (Epoch × ValidatorId × ValidatorId) := ∅
  observedInvalidReceipts : BTreeMap (Epoch × ValidatorId) Nat := ∅
  knownLivePeers : BTreeSet ValidatorId := ∅
  lastSyncRequestServed : BTreeMap ValidatorId ServedSyncRequest := ∅
  lastSyncPushServed : BTreeMap ValidatorId ServedSyncPush := ∅
  lastRecoverySyncRequest : Option RecoverySyncRequestMemo := none
  lastRecoverySyncStatus : Option RecoverySyncStatusMemo := none
  peerSyncStatus : BTreeMap ValidatorId PeerSyncStatus := ∅
  peerSyncRepairFailures : BTreeMap ValidatorId Nat := ∅
  peerMessageWindows : BTreeMap ValidatorId PeerMessageWindow := ∅
  /-- How many readings of the clock were taken. -/
  clockReads : Nat := 0
  /-- The effects so far, the latest first. -/
  effects : List Effect := []

abbrev NodeM (α : Type) := Proc Node Error α

/-- A node started on empty storage. -/
def Node.fresh (E : Env) (lastProcessedSlot : Option Slot) : Node :=
  { ledger := .fromGenesis E.genesis, lastProcessedSlot }

namespace Node

/-- The certificates in key order, `quorum_certificates.values()`. -/
def certificates (n : Node) : List QuorumCertificate := n.quorumCertificates.toList.map (·.2)

/-- The blocks a node knows, in the order it looks them up. -/
def knownBlocks (n : Node) : List Block :=
  n.blocks ++ n.pendingCertifiedChildren ++ n.orphanBlocks

def withEffect (n : Node) (e : Effect) : Node := { n with effects := e :: n.effects }

end Node

namespace NodeM

def emit (e : Effect) : NodeM Unit := Proc.modify (·.withEffect e)

def broadcast (message : ProtocolMessage) : NodeM Unit := emit (.broadcast message)

def store (w : StorageWrite) : NodeM Unit := emit (.write w)

/-- `now_unix_millis()`. -/
def now (E : Env) : NodeM Nat := do
  let n ← Proc.get
  Proc.modify fun n => { n with clockReads := n.clockReads + 1 }
  pure (E.clock n.clockReads)

/-- `find_peer`, then a send to it. -/
def sendTo (E : Env) (peer : ValidatorId) (message : ProtocolMessage) : NodeM Unit :=
  if E.config.peers.any (·.validatorId == peer) then emit (.sendTo peer message)
  else Proc.throw (.unknownPeer peer)

/-- A `?` on the result of a function that does not touch the node. -/
def check {α : Type} (x : Except Error α) : NodeM α := Proc.ofExcept x

end NodeM

end Entangrid
