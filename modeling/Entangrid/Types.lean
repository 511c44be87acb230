import Mathlib.Algebra.GroupWithZero.Nat
import Mathlib.Order.Fin.Basic

/-!
# The shared protocol types (`entangrid-types`)

The records every crate exchanges, under the source's field names. A `u64` is a `Nat`; where the
code adds to a value that a peer can choose, the sum is reduced modulo `2 ^ 64` (`u64Add`). A
32-byte hash is a number below `2 ^ 256` (big endian), whose order is the byte-wise order of the
arrays. `BTreeMap`/`BTreeSet` are the extensional ordered maps of `Std`.

`canonical_hash` is `blake3` of the `bincode` encoding: `Hashing` takes it as a parameter, one
constructor of `HashInput` for each type it is called at.
-/

namespace Entangrid

abbrev ValidatorId := Nat
abbrev Slot := Nat
abbrev Epoch := Nat

/-- A 32-byte hash, read as a big-endian number. -/
abbrev HashBytes := Fin (2 ^ 256)

/-- `validator-<id>` for a validator's own account. -/
abbrev AccountId := String

abbrev BTreeMap (α β : Type) [Ord α] := Std.ExtTreeMap α β compare
abbrev BTreeSet (α : Type) [Ord α] := Std.ExtTreeSet α compare

/-- Tuples compare lexicographically, as in the source. -/
instance ordTuple {α β : Type} [Ord α] [Ord β] : Ord (α × β) := lexOrd

/-! The order facts the maps ask of their keys, named at the key types in use. -/

instance neZero_hash : NeZero (2 ^ 256) := ⟨Nat.ne_of_gt (Nat.two_pow_pos 256)⟩
instance transOrd_hash : Std.TransOrd HashBytes := inferInstance
instance transOrd_pair : Std.TransOrd (Nat × Nat) := inferInstance
instance transOrd_triple : Std.TransOrd (Nat × Nat × Nat) := inferInstance

/-- The parent of the first block, and the root of an absent commitment. -/
def empty_hash : HashBytes := 0

/-- The largest `u64`. -/
def u64Max : Nat := 2 ^ 64 - 1

/-- `u64` addition in a release build: it wraps at `2 ^ 64`, where a dev build panics. -/
def u64Add (a b : Nat) : Nat := (a + b) % 2 ^ 64

/-- `u64::saturating_add` and `u64::saturating_mul`. -/
def satAdd (a b : Nat) : Nat := min (a + b) u64Max
def satMul (a b : Nat) : Nat := min (a * b) u64Max

/-- Byte `i` of a hash. -/
def HashBytes.byte (h : HashBytes) (i : Nat) : Nat := h.val / 256 ^ (31 - i) % 256

/-- `u64::from_le_bytes` of the first eight bytes of a hash. -/
def HashBytes.leU64 (h : HashBytes) : Nat :=
  ((List.range 8).map fun i => HashBytes.byte h i * 256 ^ i).sum

/-! ## Floating point

An `f64` is its bit pattern; comparison follows IEEE 754. Arithmetic on scores is a parameter
(`Env.score`). -/

/-- The bits of an `f64`. -/
structure F64 where
  bits : Nat
deriving DecidableEq, Inhabited

namespace F64

/-- All exponent bits are set, and some mantissa bit is. -/
def isNaN (x : F64) : Bool :=
  x.bits / 2 ^ 52 % 2 ^ 11 == 2 ^ 11 - 1 && x.bits % 2 ^ 52 != 0

/-- Sign and magnitude as an integer: the order of the non-NaN values, both zeros equal. -/
def key (x : F64) : Int :=
  if x.bits / 2 ^ 63 % 2 = 0 then (x.bits % 2 ^ 63 : Nat) else -(x.bits % 2 ^ 63 : Nat)

/-- `<` on `f64`: false when one side is NaN. -/
def lt (x y : F64) : Bool := !x.isNaN && !y.isNaN && decide (x.key < y.key)
def eq (x y : F64) : Bool := !x.isNaN && !y.isNaN && decide (x.key = y.key)

def zero : F64 := ⟨0⟩
def one : F64 := ⟨0x3FF0000000000000⟩
def half : F64 := ⟨0x3FE0000000000000⟩
def quarter : F64 := ⟨0x3FD0000000000000⟩

end F64

/-! ## Signatures and identities -/

/-- `hybrid` stands for a signature made of components of the other schemes. -/
inductive SignatureScheme where
  | devDeterministic | ed25519 | mlDsa | hybrid
deriving DecidableEq, Inhabited

structure SignatureComponent where
  scheme : SignatureScheme
  bytes : List UInt8
deriving DecidableEq

/-- One scheme with its bytes, or the components of a hybrid signature. -/
structure TypedSignature where
  scheme : SignatureScheme := .devDeterministic
  bytes : List UInt8 := []
  components : List SignatureComponent := []
deriving DecidableEq, Inhabited

inductive PublicKeyScheme where
  | devDeterministic | ed25519 | mlDsa | hybrid
deriving DecidableEq, Inhabited

structure PublicIdentityComponent where
  scheme : PublicKeyScheme
  bytes : List UInt8
deriving DecidableEq

/-- The keys a validator's signatures are checked with, from the genesis. -/
structure PublicIdentity where
  scheme : PublicKeyScheme := .devDeterministic
  bytes : List UInt8 := []
  components : List PublicIdentityComponent := []
deriving DecidableEq, Inhabited

inductive SessionKeyScheme where
  | devDeterministic | mlKem | hybrid
deriving DecidableEq, Inhabited

structure SessionPublicIdentityComponent where
  scheme : SessionKeyScheme
  bytes : List UInt8
deriving DecidableEq

/-- The keys of the session handshake, by scheme. -/
structure SessionPublicIdentity where
  scheme : SessionKeyScheme := .devDeterministic
  bytes : List UInt8 := []
  components : List SessionPublicIdentityComponent := []
deriving DecidableEq, Inhabited

/-! ## Configuration -/

/-- What a node signs with, from its configuration. -/
inductive SigningBackendKind where
  | devDeterministic | mlDsa65Experimental | hybridDeterministicMlDsaExperimental
deriving DecidableEq, Inhabited

/-- What a node does its handshakes with. -/
inductive SessionBackendKind where
  | devDeterministic | hybridDeterministicMlKemExperimental
deriving DecidableEq, Inhabited

/-- The four weights of a service score. -/
structure ServiceScoreWeights where
  uptimeWeight : F64
  deliveryWeight : F64
  diversityWeight : F64
  penaltyWeight : F64
deriving DecidableEq

/-- The weights the sync validators use, whatever a node configures. -/
def defaultServiceScoreWeights : ServiceScoreWeights :=
  { uptimeWeight := .quarter, deliveryWeight := .half, diversityWeight := .quarter,
    penaltyWeight := .one }

/-- The protocol switches of a node; the others on the network should have the same. -/
structure FeatureFlags where
  enableReceipts : Bool
  enableServiceGating : Bool
  consensusV2 : Bool
  requireHybridValidatorSignatures : Bool
  serviceGatingStartEpoch : Epoch
  serviceGatingThreshold : F64
  serviceScoreWindowEpochs : Nat
  serviceScoreWeights : ServiceScoreWeights

structure PeerConfig where
  validatorId : ValidatorId
  address : String := ""
deriving DecidableEq

/-- A validator's entry in the genesis. -/
structure ValidatorConfig where
  validatorId : ValidatorId
  devSecret : String := ""
  publicIdentity : PublicIdentity := {}
  sessionPublicIdentity : Option SessionPublicIdentity := none

/-- What all nodes of a network share: the clock of the slots, the validators and the first balances. -/
structure GenesisConfig where
  epochSeed : HashBytes
  genesisTimeUnixMillis : Nat
  slotDurationMillis : Nat
  slotsPerEpoch : Nat
  maxTxsPerBlock : Nat
  witnessCount : Nat
  validators : List ValidatorConfig
  initialBalances : BTreeMap AccountId Nat

/-- The part of `NodeConfig` the runner and the crypto backend read; `pauseSlotProduction` is the field
of its `fault_profile`. -/
structure NodeConfig where
  validatorId : ValidatorId
  peers : List PeerConfig
  featureFlags : FeatureFlags
  pauseSlotProduction : Bool
  syncOnStartup : Bool
  signingBackend : SigningBackendKind := .devDeterministic
  signingKeyPath : Option String := none
  sessionBackend : SessionBackendKind := .devDeterministic
  sessionKeyPath : Option String := none

/-! ## Transactions, receipts and blocks -/

/-- The classes of messages that receipts are issued for. -/
inductive MessageClass where
  | heartbeat | transaction | block
deriving DecidableEq

/-- A transfer; `nonce` is the number of earlier transactions of the account. -/
structure Transaction where
  fromAccount : AccountId
  toAccount : AccountId
  amount : Nat
  nonce : Nat
  memo : Option String := none
deriving DecidableEq

/-- `txHash` is the hash of the transaction, and what is signed. -/
structure SignedTransaction where
  transaction : Transaction
  signerId : ValidatorId
  signature : TypedSignature
  txHash : HashBytes
  submittedAtUnixMillis : Nat
deriving DecidableEq

/-- What a validator broadcasts once in each slot. -/
structure HeartbeatPulse where
  epoch : Epoch
  slot : Slot
  sourceValidatorId : ValidatorId
  sequenceNumber : Nat
  emittedAtUnixMillis : Nat

/-- A witness's statement that it heard a message of the source in a slot. -/
structure RelayReceipt where
  epoch : Epoch
  slot : Slot
  sourceValidatorId : ValidatorId
  destinationValidatorId : ValidatorId
  witnessValidatorId : ValidatorId
  messageClass : MessageClass
  transcriptDigest : HashBytes
  latencyBucketMs : Nat
  byteCountBucket : Nat
  sequenceNumber : Nat
  signature : TypedSignature
deriving DecidableEq

/-- `by_message_class` is the count of each class that occurs. -/
structure CommitmentSummary where
  byMessageClass : MessageClass → Option Nat
  distinctPeers : Nat
  relayScore : F64

/-- A proposer's commitment to the receipts it earned in an epoch. -/
structure TopologyCommitment where
  epoch : Epoch
  validatorId : ValidatorId
  receiptRoot : HashBytes
  receiptCount : Nat
  summary : CommitmentSummary

/-- The derived `PartialEq` of `TopologyCommitment` (scores compare as `f64`). -/
def TopologyCommitment.eq (a b : TopologyCommitment) : Bool :=
  a.epoch == b.epoch && a.validatorId == b.validatorId && a.receiptRoot == b.receiptRoot &&
    a.receiptCount == b.receiptCount &&
    [MessageClass.heartbeat, .transaction, .block].all
      (fun c => a.summary.byMessageClass c == b.summary.byMessageClass c) &&
    a.summary.distinctPeers == b.summary.distinctPeers &&
    a.summary.relayScore.eq b.summary.relayScore

/-- The witnesses of a validator in an epoch, and the peers it relays to. -/
structure EpochAssignment where
  epoch : Epoch
  validatorId : ValidatorId
  witnesses : List ValidatorId
  relayTargets : List ValidatorId
deriving DecidableEq

/-- `topologyRoot` is the hash of the commitment, `stateRoot` that of the ledger after the block. -/
structure BlockHeader where
  blockNumber : Nat
  parentHash : HashBytes
  slot : Slot
  epoch : Epoch
  proposerId : ValidatorId
  timestampUnixMillis : Nat
  stateRoot : HashBytes
  transactionsRoot : HashBytes
  topologyRoot : HashBytes
deriving DecidableEq

/-- `commitmentReceipts` are the receipts the commitment is about; the hash does not cover them. -/
structure Block where
  header : BlockHeader
  transactions : List SignedTransaction
  commitment : Option TopologyCommitment
  commitmentReceipts : List RelayReceipt
  signature : TypedSignature
  blockHash : HashBytes

/-- The accounts after a chain, with its tip. -/
structure StateSnapshot where
  balances : BTreeMap AccountId Nat
  nonces : BTreeMap AccountId Nat
  tipHash : HashBytes
  height : Nat
  lastSlot : Slot
deriving DecidableEq

/-! ## Votes, certificates and service evidence -/

/-- A validator's vote for a block; number, epoch and slot are those of the block. -/
structure ProposalVote where
  validatorId : ValidatorId
  blockHash : HashBytes
  blockNumber : Nat
  epoch : Epoch
  slot : Slot
  signature : TypedSignature
deriving DecidableEq

/-- The votes that certify a block. -/
structure QuorumCertificate where
  blockHash : HashBytes
  blockNumber : Nat
  epoch : Epoch
  slot : Slot
  voteRoot : HashBytes
  votes : List ProposalVote
deriving DecidableEq

/-- What a committee member counted of a validator in an epoch. -/
structure ServiceCounters where
  uptimeWindows : Nat := 0
  totalWindows : Nat := 0
  timelyDeliveries : Nat := 0
  expectedDeliveries : Nat := 0
  distinctPeers : Nat := 0
  expectedPeers : Nat := 0
  failedSessions : Nat := 0
  invalidReceipts : Nat := 0
deriving DecidableEq, Inhabited

/-- The counters one committee member signed. -/
structure ServiceAttestation where
  subjectValidatorId : ValidatorId
  committeeMemberId : ValidatorId
  epoch : Epoch
  counters : ServiceCounters
  signature : TypedSignature
deriving DecidableEq

/-- The attestations of a validator's committee in an epoch, and their sum. -/
structure ServiceAggregate where
  subjectValidatorId : ValidatorId
  epoch : Epoch
  attestationRoot : HashBytes
  attestations : List ServiceAttestation
  aggregateCounters : ServiceCounters
deriving DecidableEq

/-! ## Messages -/

/-- A whole chain, with the state it leads to. -/
structure ChainSnapshot where
  snapshot : StateSnapshot
  blocks : List Block
  receipts : List RelayReceipt
  proposalVotes : List ProposalVote

/-- The blocks after a base, which the receiver has to know. -/
structure ChainSegment where
  baseHeight : Nat
  baseTipHash : HashBytes
  targetSnapshot : StateSnapshot
  blocks : List Block
  receipts : List RelayReceipt
  proposalVotes : List ProposalVote

/-- A block's header with its certificate. -/
structure CertifiedBlockHeader where
  header : BlockHeader
  blockHash : HashBytes
  quorumCertificate : Option QuorumCertificate
  priorServiceAggregate : Option ServiceAggregate

/-- A certified block, as a point two chains may share. -/
structure SyncQcAnchor where
  blockHash : HashBytes
  blockNumber : Nat
deriving DecidableEq

/-- What a node knows of certificates, asking for the blocks above. -/
structure ChunkedSyncRequest where
  requesterId : ValidatorId
  knownQcHash : Option HashBytes
  knownQcHeight : Nat
  knownQcAnchors : List SyncQcAnchor
  fromHeight : Nat
  wantCertifiedOnly : Bool

/-- The fields of `ChunkedSyncResponse::Certified`. -/
structure CertifiedSync where
  responderId : ValidatorId
  responderHeight : Nat
  responderTipHash : HashBytes
  sharedQcHash : HashBytes
  sharedQcHeight : Nat
  headers : List CertifiedBlockHeader
  blocks : List Block
  qcs : List QuorumCertificate
  serviceAggregates : List ServiceAggregate

/-- `unavailable` where there is nothing certified above a shared anchor. -/
inductive ChunkedSyncResponse where
  | certified (response : CertifiedSync)
  | unavailable (responderId : ValidatorId)

/-- The messages of the wire. -/
inductive ProtocolMessage where
  | transactionBroadcast (transaction : SignedTransaction)
  | blockProposal (block : Block)
  | proposalVote (vote : ProposalVote)
  | quorumCertificate (qc : QuorumCertificate)
  | syncStatus (validatorId : ValidatorId) (height : Nat) (tipHash : HashBytes)
      (tipLastSlot : Slot) (highestQcHash : Option HashBytes) (highestQcHeight : Nat)
      (recentQcAnchors : List SyncQcAnchor)
  | syncRequest (requesterId : ValidatorId) (knownHeight : Nat) (knownTipHash : HashBytes)
  | syncResponse (responderId : ValidatorId) (chain : ChainSnapshot)
  | syncBlocks (responderId : ValidatorId) (chain : ChainSegment)
  | certifiedSyncRequest (request : ChunkedSyncRequest)
  | certifiedSyncResponse (response : ChunkedSyncResponse)
  | heartbeatPulse (pulse : HeartbeatPulse)
  | relayReceipt (receipt : RelayReceipt)
  | serviceAttestation (attestation : ServiceAttestation)
  | serviceAggregate (aggregate : ServiceAggregate)
  | receiptFetch (requesterId : ValidatorId) (epoch : Epoch) (validatorId : ValidatorId)
  | receiptResponse (responderId : ValidatorId) (epoch : Epoch) (validatorId : ValidatorId)
      (receipts : List RelayReceipt)

/-! ## Hashing and signing -/

/-- The values `canonical_hash` is called on. -/
inductive HashInput where
  | transaction (t : Transaction)
  | transactions (ts : List SignedTransaction)
  | block (header : BlockHeader) (ts : List SignedTransaction) (c : Option TopologyCommitment)
  | header (h : BlockHeader)
  | commitment (c : TopologyCommitment)
  | accounts (balances nonces : BTreeMap AccountId Nat)
  | receipt (r : RelayReceipt)
  | receiptEvent (epoch : Epoch) (slot : Slot) (source destination witness : ValidatorId)
      (messageClass : MessageClass) (sequenceNumber : Nat)
  | hashes (hs : List HashBytes)
  | pulse (p : HeartbeatPulse)
  | vote (v : ProposalVote)
  | votes (vs : List ProposalVote)
  | attestation (a : ServiceAttestation)
  | attestations (as : List ServiceAttestation)
  | aggregate (a : ServiceAggregate)

/-- The hash functions: `canonical_hash`, and `hash_many` at the two shapes it is called at (a hash
and a little-endian `u64`; a secret and a message). -/
structure Hashing where
  canonicalHash : HashInput → HashBytes
  hashMany : HashBytes → Nat → HashBytes
  hashSecret : String → HashBytes → HashBytes

/-- The part of `dyn CryptoBackend` the ledger and the node call. -/
structure CryptoBackend where
  sign : ValidatorId → HashBytes → Except String TypedSignature
  verify : ValidatorId → HashBytes → TypedSignature → Except String Bool

def validatorAccount (validatorId : ValidatorId) : AccountId := "validator-" ++ toString validatorId

section
variable (H : Hashing)

/-- The hash of the votes, in the order of the certificate. -/
def quorumCertificateVoteRoot (votes : List ProposalVote) : HashBytes := H.canonicalHash (.votes votes)

def serviceAttestationRoot (attestations : List ServiceAttestation) : HashBytes :=
  H.canonicalHash (.attestations attestations)

/-- What a witness signs: the receipt with an empty signature. -/
def receiptSigningHash (receipt : RelayReceipt) : HashBytes :=
  H.canonicalHash (.receipt { receipt with signature := {} })

def serviceAttestationSigningHash (attestation : ServiceAttestation) : HashBytes :=
  H.canonicalHash (.attestation { attestation with signature := {} })

def proposalVoteSigningHash (vote : ProposalVote) : HashBytes :=
  H.canonicalHash (.vote { vote with signature := {} })

/-- The event a receipt is about; a witness may sign it more than once. -/
def receiptEventHash (r : RelayReceipt) : HashBytes :=
  H.canonicalHash (.receiptEvent r.epoch r.slot r.sourceValidatorId r.destinationValidatorId
    r.witnessValidatorId r.messageClass r.sequenceNumber)

/-- The hash a block must carry: of its header, transactions and commitment. -/
def blockBodyHash (block : Block) : HashBytes :=
  H.canonicalHash (.block block.header block.transactions block.commitment)

/-- `topology_root`: the hash of the commitment, the empty hash without one. -/
def topologyRootOf (block : Block) : HashBytes :=
  match block.commitment with
  | some c => H.canonicalHash (.commitment c)
  | none => empty_hash

/-- The votes are for the certified block, and the root is theirs; nobody counts them here. -/
def QuorumCertificate.isWellFormed (qc : QuorumCertificate) : Bool :=
  !qc.votes.isEmpty && qc.voteRoot == quorumCertificateVoteRoot H qc.votes &&
    qc.votes.all fun vote =>
      vote.blockHash == qc.blockHash && vote.blockNumber == qc.blockNumber &&
        vote.epoch == qc.epoch && vote.slot == qc.slot

end

/-- Field-wise wrapping sum of the attested counters. -/
def aggregateServiceCounters (attestations : List ServiceAttestation) : ServiceCounters :=
  attestations.foldl (fun c a =>
    { uptimeWindows := u64Add c.uptimeWindows a.counters.uptimeWindows
      totalWindows := u64Add c.totalWindows a.counters.totalWindows
      timelyDeliveries := u64Add c.timelyDeliveries a.counters.timelyDeliveries
      expectedDeliveries := u64Add c.expectedDeliveries a.counters.expectedDeliveries
      distinctPeers := u64Add c.distinctPeers a.counters.distinctPeers
      expectedPeers := u64Add c.expectedPeers a.counters.expectedPeers
      failedSessions := u64Add c.failedSessions a.counters.failedSessions
      invalidReceipts := u64Add c.invalidReceipts a.counters.invalidReceipts }) {}

/-- The root and the sum are those of the attestations, which are all of the subject and the epoch. -/
def ServiceAggregate.isWellFormed (H : Hashing) (aggregate : ServiceAggregate) : Bool :=
  !aggregate.attestations.isEmpty &&
    aggregate.attestationRoot == serviceAttestationRoot H aggregate.attestations &&
    aggregate.aggregateCounters == aggregateServiceCounters aggregate.attestations &&
    aggregate.attestations.all fun a =>
      a.subjectValidatorId == aggregate.subjectValidatorId && a.epoch == aggregate.epoch

end Entangrid
