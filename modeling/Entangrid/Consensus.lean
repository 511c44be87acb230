import Entangrid.Error
import Mathlib.Data.List.Sort

/-!
# The consensus engine (`entangrid-consensus`)

Slots, epochs, the proposer schedule, witness assignments, service counters and commitments, and
the checks built on them. The engine of the source holds a genesis and its sorted validator ids;
here both are read from the genesis (`validatorIds`). A running node's own id is one of the genesis
validators (`build_crypto_backend`), so the list is not empty there.
-/

namespace Entangrid

/-- Receipts, assignments, counters and commitments of a genesis; `score` is the floating-point
`compute_service_score_with_weights`. -/
structure ConsensusEngine where
  hashing : Hashing
  genesis : GenesisConfig
  score : ServiceCounters → ServiceScoreWeights → F64

namespace ConsensusEngine

variable (C : ConsensusEngine)

def validatorIds : List ValidatorId :=
  (C.genesis.validators.map (·.validatorId)).insertionSort (· ≤ ·)

def slotAt (timestampUnixMillis : Nat) : Slot :=
  (timestampUnixMillis - C.genesis.genesisTimeUnixMillis) / C.genesis.slotDurationMillis

def epochForSlot (slot : Slot) : Epoch :=
  if C.genesis.slotsPerEpoch = 0 then 0 else slot / C.genesis.slotsPerEpoch

def epochSeed (epoch : Epoch) : HashBytes := C.hashing.hashMany C.genesis.epochSeed epoch

def proposerForSlot (slot : Slot) : ValidatorId :=
  let selection := C.hashing.hashMany (C.epochSeed (C.epochForSlot slot)) slot
  C.validatorIds.getD (HashBytes.leU64 selection % C.validatorIds.length) 0

/-! ## Witness assignment -/

/-- The validators, rotated by the epoch seed. -/
def rotatedIds (epoch : Epoch) : List ValidatorId :=
  C.validatorIds.rotate (HashBytes.leU64 (C.epochSeed epoch) % max C.validatorIds.length 1)

/-- The relations of the validator at `position`: the next `max_relations` ids of the rotation. -/
def relationsAt (rotated : List ValidatorId) (position : Nat) (validatorId : ValidatorId) :
    List ValidatorId :=
  ((List.range (min C.genesis.witnessCount (rotated.length - 1))).map fun offset =>
    rotated.getD ((position + (offset + 1)) % rotated.length) 0).filter (· ≠ validatorId)

def assignmentsForEpoch (epoch : Epoch) : BTreeMap ValidatorId EpochAssignment :=
  let rotated := C.rotatedIds epoch
  rotated.zipIdx.foldl (fun assignments (validatorId, position) =>
    let relations := C.relationsAt rotated position validatorId
    assignments.insert validatorId
      { epoch, validatorId, witnesses := relations, relayTargets := relations }) ∅

def assignmentFor (epoch : Epoch) (validatorId : ValidatorId) : Option EpochAssignment :=
  (C.assignmentsForEpoch epoch)[validatorId]?

def isWitnessFor (witness source : ValidatorId) (epoch : Epoch) : Bool :=
  ((C.assignmentFor epoch source).map fun a => a.witnesses.contains witness).getD false

def isRelayTargetFor (source destination : ValidatorId) (epoch : Epoch) : Bool :=
  ((C.assignmentFor epoch source).map fun a => a.relayTargets.contains destination).getD false

def validateReceiptAssignment (receipt : RelayReceipt) : Except Error Unit := do
  rejectIf (C.epochForSlot receipt.slot != receipt.epoch) .receiptEpochMismatch
  rejectIf (!C.isWitnessFor receipt.witnessValidatorId receipt.sourceValidatorId receipt.epoch)
    .receiptWitnessNotAssigned
  rejectIf (!C.isRelayTargetFor receipt.sourceValidatorId receipt.destinationValidatorId
    receipt.epoch) .receiptDestinationNotAssigned

/-! ## Service counters and commitments -/

def receiptsForValidator (validatorId : ValidatorId) (epoch : Epoch)
    (receipts : List RelayReceipt) : List RelayReceipt :=
  receipts.filter fun r => r.sourceValidatorId == validatorId && r.epoch == epoch

def computeReceiptRoot (receipts : List RelayReceipt) : HashBytes :=
  C.hashing.canonicalHash
    (.hashes ((receipts.map fun r => C.hashing.canonicalHash (.receipt r)).insertionSort (· ≤ ·)))

/-- The distinct slots of the heartbeat receipts. -/
def heartbeatSlots (receipts : List RelayReceipt) : List Slot :=
  ((receipts.filter (·.messageClass = .heartbeat)).map (·.slot)).dedup

/-- The receipts within one slot of latency. -/
def timelyDeliveries (receipts : List RelayReceipt) : Nat :=
  receipts.countP (·.latencyBucketMs ≤ C.genesis.slotDurationMillis)

def countersForValidatorFromObserver (validatorId observer : ValidatorId) (epoch : Epoch)
    (receipts : List RelayReceipt) : ServiceCounters :=
  let witnesses := ((C.assignmentFor epoch validatorId).map (·.witnesses)).getD []
  if !witnesses.contains observer then {}
  else
    let observed := receipts.filter fun r =>
      r.sourceValidatorId == validatorId && r.epoch == epoch && r.witnessValidatorId == observer
    { uptimeWindows := (heartbeatSlots observed).length
      totalWindows := max C.genesis.slotsPerEpoch 1
      timelyDeliveries := C.timelyDeliveries observed
      expectedDeliveries := max C.genesis.slotsPerEpoch 1
      distinctPeers := if observed.isEmpty then 0 else 1
      expectedPeers := 1
      failedSessions := 0
      invalidReceipts := 0 }

def countersFromReceipts (validatorId : ValidatorId) (epoch : Epoch)
    (receipts : List RelayReceipt) (failedSessions invalidReceipts : Nat) : ServiceCounters :=
  let relayTargets := ((C.assignmentFor epoch validatorId).map (·.relayTargets)).getD []
  { uptimeWindows := (heartbeatSlots receipts).length
    totalWindows := max C.genesis.slotsPerEpoch 1
    timelyDeliveries := C.timelyDeliveries receipts
    expectedDeliveries := max C.genesis.slotsPerEpoch 1
    distinctPeers := (receipts.map (·.destinationValidatorId)).dedup.length
    expectedPeers := max relayTargets.length 1
    failedSessions
    invalidReceipts }

def countersForValidator (validatorId : ValidatorId) (epoch : Epoch)
    (receipts : List RelayReceipt) (failedSessions invalidReceipts : Nat) : ServiceCounters :=
  C.countersFromReceipts validatorId epoch (receiptsForValidator validatorId epoch receipts)
    failedSessions invalidReceipts

def commitmentFromReceiptsWithWeights (validatorId : ValidatorId) (epoch : Epoch)
    (receipts : List RelayReceipt) (failedSessions invalidReceipts : Nat)
    (weights : ServiceScoreWeights) : TopologyCommitment :=
  let counters := C.countersFromReceipts validatorId epoch receipts failedSessions invalidReceipts
  { epoch
    validatorId
    receiptRoot := C.computeReceiptRoot receipts
    receiptCount := receipts.length
    summary :=
      { byMessageClass := fun c =>
          let n := receipts.countP (·.messageClass = c)
          if n = 0 then none else some n
        distinctPeers := (receipts.map (·.destinationValidatorId)).dedup.length
        relayScore := C.score counters weights } }

/-! ## Service committees and aggregates -/

def serviceCommitteeFor (epoch : Epoch) (subject : ValidatorId) : List ValidatorId :=
  ((C.assignmentFor epoch subject).map (·.witnesses)).getD []

def serviceAggregatorsFor (epoch : Epoch) (subject : ValidatorId) : List ValidatorId :=
  let committee := (C.serviceCommitteeFor epoch subject).insertionSort (· ≤ ·)
  committee.take (min committee.length 3)

def isServiceAggregatorFor (epoch : Epoch) (subject validatorId : ValidatorId) : Bool :=
  (C.serviceAggregatorsFor epoch subject).contains validatorId

def serviceCommitteeThreshold (committeeSize : Nat) : Nat :=
  if committeeSize = 0 then 0 else committeeSize * 2 / 3 + 1

/-- The loop over the attestations: every signer in the committee, none twice. -/
def attestedMembers (committee : List ValidatorId) :
    List ServiceAttestation → List ValidatorId → Except Error (List ValidatorId)
  | [], attested => .ok attested
  | a :: rest, attested =>
    if !committee.contains a.committeeMemberId then .error .attestationSignerNotInCommittee
    else if attested.contains a.committeeMemberId then .error .duplicateCommitteeAttestation
    else attestedMembers committee rest (a.committeeMemberId :: attested)

def validateServiceAggregate (aggregate : ServiceAggregate) : Except Error Unit := do
  rejectIf (!aggregate.isWellFormed C.hashing) .aggregateMalformed
  let committee := C.serviceCommitteeFor aggregate.epoch aggregate.subjectValidatorId
  let attested ← attestedMembers committee aggregate.attestations []
  rejectIf (attested.length < serviceCommitteeThreshold committee.length) .aggregateBelowThreshold

/-! ## Blocks -/

def validateBlockBasic (block : Block) (expectedParentHash : HashBytes)
    (serviceScore : Option F64) (enableServiceGating : Bool) (threshold : F64) :
    Except Error Unit := do
  rejectIf (block.header.proposerId != C.proposerForSlot block.header.slot) .unexpectedProposer
  rejectIf (block.header.parentHash != expectedParentHash) .unexpectedParentHash
  rejectIf (enableServiceGating && (serviceScore.getD .zero).lt threshold) .serviceGatingRejected

end ConsensusEngine

end Entangrid
