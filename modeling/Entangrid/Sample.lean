import Entangrid.Crypto.Build
import Entangrid.Node.State

/-!
# The sample network of the source's tests

`sample_genesis_with_validator_count` and the helpers that sign transactions and build blocks and
votes over it, with the deterministic backend. Runs of the model on fixed inputs start here.
-/

namespace Entangrid

def sampleGenesisWithValidatorCount (validatorCount : Nat) : GenesisConfig where
  epochSeed := empty_hash
  genesisTimeUnixMillis := 0
  slotDurationMillis := 1000
  slotsPerEpoch := 5
  maxTxsPerBlock := 16
  witnessCount := 2
  validators := (List.range validatorCount).map fun i =>
    { validatorId := i + 1, devSecret := "secret-" ++ toString (i + 1) }
  initialBalances := (List.range validatorCount).foldl
    (fun m i => m.insert (validatorAccount (i + 1)) 1000) ∅

def sampleGenesis : GenesisConfig := sampleGenesisWithValidatorCount 4

def sampleCrypto : CryptoBackend :=
  (DeterministicCryptoBackend.fromGenesis rollingHashing sampleGenesis).backend

/-- `crypto.sign(..).unwrap()`. -/
def sampleSignature (validatorId : ValidatorId) (message : HashBytes) : TypedSignature :=
  (sampleCrypto.sign validatorId message).toOption.getD {}

/-- A signed transfer out of the signer's own account. -/
def signedTransfer (signerId : ValidatorId) (toAccount : AccountId) (amount nonce : Nat) :
    SignedTransaction :=
  let transaction : Transaction :=
    { fromAccount := validatorAccount signerId, toAccount, amount, nonce }
  let txHash := rollingHashing.canonicalHash (.transaction transaction)
  { transaction, signerId, signature := sampleSignature signerId txHash, txHash,
    submittedAtUnixMillis := 0 }

/-- A signed block without commitment whose state root is that of `after`, the ledger it leads to. -/
def signedBlock (blockNumber : Nat) (parentHash : HashBytes) (slot epoch : Nat)
    (proposerId : ValidatorId) (transactions : List SignedTransaction) (after : LedgerState) :
    Block :=
  let header : BlockHeader :=
    { blockNumber, parentHash, slot, epoch, proposerId, timestampUnixMillis := 0
      stateRoot := after.stateRoot rollingHashing
      transactionsRoot := rollingHashing.canonicalHash (.transactions transactions)
      topologyRoot := empty_hash }
  let blockHash := rollingHashing.canonicalHash (.block header transactions none)
  { header, transactions, commitment := none, commitmentReceipts := []
    signature := sampleSignature proposerId blockHash, blockHash }

def signedProposalVote (validatorId : ValidatorId) (block : Block) : ProposalVote :=
  let vote : ProposalVote :=
    { validatorId, blockHash := block.blockHash, blockNumber := block.header.blockNumber
      epoch := block.header.epoch, slot := block.header.slot, signature := {} }
  { vote with
    signature := sampleSignature validatorId (proposalVoteSigningHash rollingHashing vote) }

/-- The receipt of a heartbeat of validator 2 in slot 1, signed by its witness. -/
def heartbeatReceiptOf2 : RelayReceipt :=
  let receipt : RelayReceipt :=
    { epoch := 0, slot := 1, sourceValidatorId := 2, destinationValidatorId := 4
      witnessValidatorId := 3, messageClass := .heartbeat, transcriptDigest := 7
      latencyBucketMs := 20, byteCountBucket := 1, sequenceNumber := 1, signature := {} }
  { receipt with signature := sampleSignature 3 (receiptSigningHash rollingHashing receipt) }

/-- A certificate of the listed voters, in this order. -/
def certificateOf (block : Block) (voters : List ValidatorId) : QuorumCertificate :=
  let votes := voters.map fun v => signedProposalVote v block
  { blockHash := block.blockHash, blockNumber := block.header.blockNumber
    epoch := block.header.epoch, slot := block.header.slot
    voteRoot := quorumCertificateVoteRoot rollingHashing votes, votes }

def signedServiceAttestation (subject member : ValidatorId) (epoch : Epoch)
    (counters : ServiceCounters) : ServiceAttestation :=
  let attestation : ServiceAttestation :=
    { subjectValidatorId := subject, committeeMemberId := member, epoch, counters, signature := {} }
  { attestation with
    signature := sampleSignature member (serviceAttestationSigningHash rollingHashing attestation) }

/-- `service_aggregate_for_subject`: an aggregate of the whole committee, each member attesting the
same counters. -/
def serviceAggregateForSubject (C : ConsensusEngine) (subject : ValidatorId) (epoch : Epoch)
    (counters : ServiceCounters) : ServiceAggregate :=
  let attestations := (C.serviceCommitteeFor epoch subject).map fun member =>
    signedServiceAttestation subject member epoch counters
  { subjectValidatorId := subject, epoch
    attestationRoot := serviceAttestationRoot rollingHashing attestations
    attestations, aggregateCounters := aggregateServiceCounters attestations }

/-! ## Keys -/

/-- A stand-in for ML-DSA with two-byte keys: a key signs by prefixing itself. -/
def samplePrimitives : Primitives (List UInt8) (List UInt8) (List UInt8) where
  hashSecret secret m := rollingHash (17 :: Encode.string secret ++ Encode.bytes m)
  mlDsa :=
    { decodeSigningKey := fun bytes => if bytes.length = 2 then some bytes else none
      decodeVerifyingKey := fun bytes => if bytes.length = 2 then some bytes else none
      encodeVerifyingKey := id
      sign := fun key m => key ++ m
      verify := fun key m bytes => bytes == key ++ m }

def sampleKeyFiles : KeyFiles where
  readMlDsa65 path :=
    if path = "ml-dsa-1.json" then .ok { signingKey := [7, 1], verifyingKey := [7, 1] }
    else .error ("failed to read ML-DSA key file " ++ path)
  readMlKemSession path := .error ("failed to read ML-KEM session key file at " ++ path)

/-- The hybrid identity of the first validator's keys, with further components. -/
def sampleIdentity (further : List PublicIdentityComponent) : PublicIdentity where
  scheme := .hybrid
  components := { scheme := .devDeterministic, bytes := utf8Bytes "validator-1" } ::
    { scheme := .mlDsa, bytes := [7, 1] } :: further

/-! ## Nodes -/

/-- `consensus_v2` without receipts and service gating. -/
def sampleFlags : FeatureFlags where
  enableReceipts := false
  enableServiceGating := false
  consensusV2 := true
  requireHybridValidatorSignatures := false
  serviceGatingStartEpoch := 0
  serviceGatingThreshold := .zero
  serviceScoreWindowEpochs := 4
  serviceScoreWeights := defaultServiceScoreWeights

/-- The node of a sample validator, connected to the other three; its clock stands at genesis. -/
def sampleEnv (validatorId : ValidatorId) : Env where
  hashing := rollingHashing
  crypto := sampleCrypto
  genesis := sampleGenesis
  config :=
    { validatorId
      peers := ([1, 2, 3, 4].filter (· ≠ validatorId)).map fun id => { validatorId := id }
      featureFlags := sampleFlags
      pauseSlotProduction := false
      syncOnStartup := false }
  score _ _ := .one
  clock _ := 0

/-- A sample node that issues receipts. -/
def receiptEnv (validatorId : ValidatorId) : Env :=
  { sampleEnv validatorId with
    config := { (sampleEnv validatorId).config with
      featureFlags := { sampleFlags with enableReceipts := true } } }

/-- An empty block of the slot's proposer. -/
def emptyBlock (blockNumber : Nat) (parentHash : HashBytes) (slot : Slot) : Block :=
  let C := (sampleEnv 1).consensus
  signedBlock blockNumber parentHash slot (C.epochForSlot slot) (C.proposerForSlot slot) []
    (.fromGenesis sampleGenesis)

/-- The first block of slot 0, a block on top of it and one beside it. -/
def firstBlock : Block := emptyBlock 1 empty_hash 0

def secondBlock : Block := emptyBlock 2 firstBlock.blockHash 1

def rivalBlock : Block := emptyBlock 1 empty_hash 1

end Entangrid
