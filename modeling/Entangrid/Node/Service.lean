import Entangrid.Node.Receipts

/-!
# Service evidence

Attestations of the service committees, the aggregates built from them, the scores they give and
the gating decisions of `consensus_v2`.
-/

namespace Entangrid

open NodeM

/-- The same windows and denominators, and nothing counted less. -/
def serviceCountersDominate (candidate existing : ServiceCounters) : Bool :=
  candidate.totalWindows == existing.totalWindows &&
    candidate.expectedDeliveries == existing.expectedDeliveries &&
    candidate.expectedPeers == existing.expectedPeers &&
    candidate.uptimeWindows ≥ existing.uptimeWindows &&
    candidate.timelyDeliveries ≥ existing.timelyDeliveries &&
    candidate.distinctPeers ≥ existing.distinctPeers &&
    candidate.failedSessions ≥ existing.failedSessions &&
    candidate.invalidReceipts ≥ existing.invalidReceipts

/-- Field-wise saturating, unlike the sum of the attested counters. -/
def accumulateWeightedCounters (aggregate counters : ServiceCounters) (weight : Nat) :
    ServiceCounters :=
  { uptimeWindows := satAdd aggregate.uptimeWindows (satMul counters.uptimeWindows weight)
    totalWindows := satAdd aggregate.totalWindows (satMul counters.totalWindows weight)
    timelyDeliveries := satAdd aggregate.timelyDeliveries (satMul counters.timelyDeliveries weight)
    expectedDeliveries :=
      satAdd aggregate.expectedDeliveries (satMul counters.expectedDeliveries weight)
    distinctPeers := satAdd aggregate.distinctPeers (satMul counters.distinctPeers weight)
    expectedPeers := satAdd aggregate.expectedPeers (satMul counters.expectedPeers weight)
    failedSessions := satAdd aggregate.failedSessions (satMul counters.failedSessions weight)
    invalidReceipts := satAdd aggregate.invalidReceipts (satMul counters.invalidReceipts weight) }

/-- Why a proposer is let through or not. -/
inductive V2GatingState where
  | allowNoEvidence
  | allowInsufficientEvidence
  | allowScore (score : F64)
  | rejectScore (score : F64)
deriving DecidableEq

/-- The evidence of earlier epochs on a validator. -/
inductive V2ServiceEvidenceState where
  | recentConfirmed (latestEpoch : Epoch) (counters : ServiceCounters) (score : F64)
  | staleConfirmed
  | noEvidence
deriving DecidableEq

section
variable (E : Env)

/-! ## Evidence and gating -/

/-- The aggregates of a validator with an epoch in `first ..= last`, by epoch. -/
def aggregatesInRange (n : Node) (validatorId : ValidatorId) (first last : Epoch) :
    List ServiceAggregate :=
  (n.serviceAggregates.toList.filter fun (key, _) =>
    key.1 == validatorId && key.2 ≥ first && key.2 ≤ last).map (·.2)

/-- The last aggregate before an epoch, the fallback of the window. -/
def latestServiceAggregateBeforeEpoch (n : Node) (validatorId : ValidatorId)
    (currentEpoch : Epoch) : Option ServiceAggregate :=
  if currentEpoch = 0 then none
  else (aggregatesInRange n validatorId 0 (currentEpoch - 1)).getLast?

/-- By the checks of the consensus engine; signatures are not checked again. -/
def aggregateIsValid (aggregate : ServiceAggregate) : Bool :=
  (E.consensus.validateServiceAggregate aggregate).toOption.isSome

/-- The weighted counters of the window before an epoch, later epochs weighing more, and their score. -/
def weightedRecentServiceEvidenceBeforeEpoch (n : Node) (validatorId : ValidatorId)
    (currentEpoch : Epoch) : Option (Epoch × ServiceCounters × F64) := do
  if currentEpoch = 0 then none
  else
    let firstEpoch := currentEpoch - max E.config.featureFlags.serviceScoreWindowEpochs 1
    let recent := (aggregatesInRange n validatorId firstEpoch (currentEpoch - 1)).filter
      (aggregateIsValid E)
    let counters := recent.foldl (fun counters aggregate =>
      accumulateWeightedCounters counters aggregate.aggregateCounters
        (u64Add (aggregate.epoch - firstEpoch) 1)) {}
    let (latestEpoch, counters) ←
      match recent.getLast? with
      | some aggregate => some (aggregate.epoch, counters)
      | none => do
        let fallback ← latestServiceAggregateBeforeEpoch n validatorId currentEpoch
        if aggregateIsValid E fallback then
          some (fallback.epoch, accumulateWeightedCounters {} fallback.aggregateCounters 1)
        else none
    some (latestEpoch, counters, E.score counters E.config.featureFlags.serviceScoreWeights)

/-- Stale evidence is an aggregate that is not valid. -/
def v2ServiceEvidenceState (n : Node) (validatorId : ValidatorId) (currentEpoch : Epoch) :
    V2ServiceEvidenceState :=
  match weightedRecentServiceEvidenceBeforeEpoch E n validatorId currentEpoch with
  | some (latestEpoch, counters, score) => .recentConfirmed latestEpoch counters score
  | none =>
    if (latestServiceAggregateBeforeEpoch n validatorId currentEpoch).isSome then .staleConfirmed
    else .noEvidence

def serviceGatingThreshold : F64 := E.config.featureFlags.serviceGatingThreshold

/-- Only a score below the threshold rejects. -/
def v2GatingState (n : Node) (validatorId : ValidatorId) (epoch : Epoch) : V2GatingState :=
  if epoch = 0 then .allowNoEvidence
  else
    match v2ServiceEvidenceState E n validatorId epoch with
    | .recentConfirmed _ _ score =>
      if score.lt (serviceGatingThreshold E) then .rejectScore score else .allowScore score
    | .staleConfirmed => .allowInsufficientEvidence
    | .noEvidence => .allowNoEvidence

/-- 1 for a validator without a score. -/
def serviceScoreForValidator (n : Node) (validatorId : ValidatorId) : F64 :=
  n.latestServiceScores.getD validatorId .one

/-- From the configured epoch on. -/
def serviceGatingActive (epoch : Epoch) : Bool :=
  epoch ≥ E.config.featureFlags.serviceGatingStartEpoch

/-! ## Scores -/

/-- The failed sessions a validator was observed to have in an epoch. -/
def failedSessionsFor (n : Node) (validatorId : ValidatorId) (epoch : Epoch) : Nat :=
  n.observedFailedSessions.toList.countP fun (e, v, _) => e == epoch && v == validatorId

def invalidReceiptsFor (n : Node) (validatorId : ValidatorId) (epoch : Epoch) : Nat :=
  n.observedInvalidReceipts.getD (epoch, validatorId) 0

/-- Observations before the window are dropped. -/
def prunePenaltyObservations (earliestEpoch : Epoch) (n : Node) : Node :=
  { n with
    observedFailedSessions := n.observedFailedSessions.filter (·.1 ≥ earliestEpoch)
    observedSuccessfulSessions := n.observedSuccessfulSessions.filter (·.1 ≥ earliestEpoch)
    observedInvalidReceipts := n.observedInvalidReceipts.filter fun key _ => key.1 ≥ earliestEpoch }

/-- A new score for every validator. -/
def setScores (n : Node) (score : ValidatorId → F64) : Node :=
  { n with
    latestServiceScores := (E.genesis.validators.map (·.validatorId)).foldl
      (fun scores validatorId => scores.insert validatorId (score validatorId))
      n.latestServiceScores }

/-- The score of the first protocol: the weighted counters of the window, from receipts. -/
def windowScore (n : Node) (earliestEpoch completedEpoch : Epoch) (validatorId : ValidatorId) :
    F64 :=
  let counters := (List.range' earliestEpoch (completedEpoch + 1 - earliestEpoch)).foldl
    (fun aggregate epoch =>
      accumulateWeightedCounters aggregate
        (E.consensus.countersForValidator validatorId epoch n.receipts
          (failedSessionsFor n validatorId epoch) (invalidReceiptsFor n validatorId epoch))
        (epoch - earliestEpoch + 1)) {}
  E.score counters E.config.featureFlags.serviceScoreWeights

/-- Scores of the last completed epochs; everyone has 1 in the first. -/
def refreshedScores (n : Node) : Node :=
  let currentEpoch := (n.lastProcessedSlot.map E.consensus.epochForSlot).getD 0
  let completedEpoch := currentEpoch - 1
  if currentEpoch = 0 then setScores E n fun _ => .one
  else if E.v2 then
    setScores E n fun validatorId =>
      match v2ServiceEvidenceState E n validatorId currentEpoch with
      | .recentConfirmed _ _ score => score
      | _ => serviceScoreForValidator n validatorId
  else
    let windowEpochs := max E.config.featureFlags.serviceScoreWindowEpochs 1
    let earliestEpoch := completedEpoch - (windowEpochs - 1)
    let n := prunePenaltyObservations earliestEpoch n
    setScores E n (windowScore E n earliestEpoch completedEpoch)

def refreshServiceScores : NodeM Unit := Proc.modify (refreshedScores E)

/-! ## Attestations -/

/-- The signer is in the committee; its counters are not looked at. -/
def validateServiceAttestation (attestation : ServiceAttestation) : Except Error Unit := do
  let committee := E.consensus.serviceCommitteeFor attestation.epoch attestation.subjectValidatorId
  rejectIf (!committee.contains attestation.committeeMemberId) .attestationNotInCommittee
  validateHybridServiceAttestationPolicy E attestation
  verifySignature E attestation.committeeMemberId
    (serviceAttestationSigningHash E.hashing attestation) attestation.signature
    .invalidAttestationSignature

/-- Whether `insert_service_attestation` takes an attestation over the one it holds. -/
def attestationReplaces (existing : Option ServiceAttestation) (attestation : ServiceAttestation) :
    Bool :=
  match existing with
  | none => true
  | some existing =>
    serviceAttestationSigningHash E.hashing existing !=
        serviceAttestationSigningHash E.hashing attestation &&
      !serviceCountersDominate existing.counters attestation.counters &&
      serviceCountersDominate attestation.counters existing.counters

def addServiceAttestation (attestation : ServiceAttestation) (n : Node) : Node :=
  let key := (attestation.subjectValidatorId, attestation.epoch)
  let byMember := n.serviceAttestations.getD key ∅
  { n with
    serviceAttestations := n.serviceAttestations.insert key
      (byMember.insert attestation.committeeMemberId attestation)
    seenServiceAttestations :=
      n.seenServiceAttestations.insert (serviceAttestationSigningHash E.hashing attestation) }

/-- False if the attestation is seen, or does not replace the one held. -/
def insertServiceAttestation (attestation : ServiceAttestation) (persist : Bool) : NodeM Bool := do
  let n ← Proc.get
  let key := (attestation.subjectValidatorId, attestation.epoch)
  if n.seenServiceAttestations.contains (serviceAttestationSigningHash E.hashing attestation) then
    pure false
  else
    let existing := (n.serviceAttestations.getD key ∅)[attestation.committeeMemberId]?
    if attestationReplaces E existing attestation then
      Proc.modify (addServiceAttestation E attestation)
      if persist then store (.appendServiceAttestation attestation) else pure ()
      pure true
    else pure false

/-- An attestation that arrives on its own. -/
def importServiceAttestation (attestation : ServiceAttestation) : NodeM Bool := do
  if !E.v2 then Proc.throw .attestationsRequireV2
  else
    check (validateServiceAttestation E attestation)
    insertServiceAttestation E attestation true

/-- What the node itself counted of a subject, signed. -/
def buildLocalServiceAttestation (n : Node) (subjectValidatorId : ValidatorId) (epoch : Epoch) :
    Except Error ServiceAttestation := do
  let counters := E.consensus.countersForValidatorFromObserver subjectValidatorId E.me epoch n.receipts
  let unsigned : ServiceAttestation :=
    { subjectValidatorId, committeeMemberId := E.me, epoch, counters, signature := {} }
  let signature ← ofCrypto (E.crypto.sign E.me (serviceAttestationSigningHash E.hashing unsigned))
  let attestation := { unsigned with signature }
  validateHybridServiceAttestationPolicy E attestation
  .ok attestation

/-! ## Aggregates -/

/-- The checks of the engine, and of every attestation. -/
def validateServiceAggregate (aggregate : ServiceAggregate) : Except Error Unit := do
  E.consensus.validateServiceAggregate aggregate
  aggregate.attestations.forM (validateServiceAttestation E)

/-- The aggregate of the attestations held, if it is valid. -/
def buildServiceAggregate (n : Node) (subjectValidatorId : ValidatorId) (epoch : Epoch) :
    Option ServiceAggregate := do
  if !E.v2 then none
  else
    let byMember ← n.serviceAttestations[(subjectValidatorId, epoch)]?
    let attestations := byMember.toList.map (·.2)
    let aggregate : ServiceAggregate :=
      { subjectValidatorId, epoch
        attestationRoot := serviceAttestationRoot E.hashing attestations
        attestations, aggregateCounters := aggregateServiceCounters attestations }
    if aggregateIsValid E aggregate then some aggregate else none

def addServiceAggregate (aggregate : ServiceAggregate) (n : Node) : Node :=
  { n with
    serviceAggregates :=
      n.serviceAggregates.insert (aggregate.subjectValidatorId, aggregate.epoch) aggregate
    seenServiceAggregates :=
      n.seenServiceAggregates.insert (E.hashing.canonicalHash (.aggregate aggregate)) }

/-- An aggregate that was not seen replaces the one held for its subject and epoch. -/
def insertServiceAggregate (aggregate : ServiceAggregate) (persist : Bool) : NodeM Bool := do
  let n ← Proc.get
  let aggregateId := E.hashing.canonicalHash (.aggregate aggregate)
  let existing := n.serviceAggregates[(aggregate.subjectValidatorId, aggregate.epoch)]?
  if n.seenServiceAggregates.contains aggregateId ||
      (existing.map fun a => E.hashing.canonicalHash (.aggregate a) == aggregateId).getD false then
    pure false
  else
    Proc.modify (addServiceAggregate E aggregate)
    if persist then store (.appendServiceAggregate aggregate) else pure ()
    pure true

/-- Whether any attestation of a list was new. -/
def insertServiceAttestations (persist : Bool) : List ServiceAttestation → NodeM Bool
  | [] => pure false
  | attestation :: rest => do
    let changed ← insertServiceAttestation E attestation persist
    let changed' ← insertServiceAttestations persist rest
    pure (changed || changed')

/-- The attestations are kept one by one, and the aggregate is built anew from all that are held. -/
def mergeServiceAggregate (aggregate : ServiceAggregate) (persist : Bool) : NodeM Bool := do
  let changed ← insertServiceAttestations E persist aggregate.attestations
  let n ← Proc.get
  match buildServiceAggregate E n aggregate.subjectValidatorId aggregate.epoch with
  | none => pure changed
  | some canonical => do
    let changed' ← insertServiceAggregate E canonical persist
    pure (changed || changed')

/-- An aggregate that arrives. -/
def importServiceAggregate (aggregate : ServiceAggregate) : NodeM Bool := do
  if !E.v2 then Proc.throw .aggregatesRequireV2
  else
    check (validateServiceAggregate E aggregate)
    mergeServiceAggregate E aggregate true

/-- An aggregator of the subject publishes when its own import changes something. -/
def maybePublishServiceAggregate (subjectValidatorId : ValidatorId) (epoch : Epoch) :
    NodeM Bool := do
  let n ← Proc.get
  if !E.v2 || !E.consensus.isServiceAggregatorFor epoch subjectValidatorId E.me then pure false
  else
    match buildServiceAggregate E n subjectValidatorId epoch with
    | none => pure false
    | some aggregate =>
      if ← importServiceAggregate E aggregate then
        refreshServiceScores E
        broadcast (.serviceAggregate aggregate)
        pure true
      else pure false

/-- A committee member's attestation of a subject goes to the subject's aggregators. -/
def emitServiceAttestationFor (epoch : Epoch) (subjectValidatorId : ValidatorId) : NodeM Unit := do
  let n ← Proc.get
  if subjectValidatorId = E.me ∨
      !(E.consensus.serviceCommitteeFor epoch subjectValidatorId).contains E.me then pure ()
  else
    let attestation ← check (buildLocalServiceAttestation E n subjectValidatorId epoch)
    if ← importServiceAttestation E attestation then
      let aggregators := E.consensus.serviceAggregatorsFor epoch subjectValidatorId
      Proc.forEach (E.config.peers.filter fun peer => aggregators.contains peer.validatorId)
        fun peer => sendTo E peer.validatorId (.serviceAttestation attestation)
    else pure ()
    let _ ← maybePublishServiceAggregate E subjectValidatorId epoch
    pure ()

/-- For every validator. -/
def emitServiceAttestationsForCompletedEpoch (epoch : Epoch) : NodeM Unit :=
  if !E.v2 then pure ()
  else Proc.forEach (E.genesis.validators.map (·.validatorId)) (emitServiceAttestationFor E epoch)

/-- The epochs of the window that ends three before the current one are attested again. -/
def refreshRecentServiceAttestations (currentEpoch : Epoch) : NodeM Unit :=
  if !E.v2 || currentEpoch ≤ 2 then pure ()
  else
    let backfillEpochs := max E.config.featureFlags.serviceScoreWindowEpochs 1
    let lastAttestableEpoch := currentEpoch - 3
    let firstAttestableEpoch := lastAttestableEpoch - (backfillEpochs - 1)
    Proc.forEach (List.range' firstAttestableEpoch (lastAttestableEpoch + 1 - firstAttestableEpoch))
      (emitServiceAttestationsForCompletedEpoch E)

/-! ## Sessions -/

def currentEpoch : NodeM Epoch := do
  let slot ← processedSlot E
  pure (E.consensus.epochForSlot slot)

/-- A success clears the failure of the same epoch. -/
def recordSuccessfulSession (epoch : Epoch) (validatorId peerValidatorId : ValidatorId) (n : Node) :
    Node :=
  if !E.consensus.isRelayTargetFor validatorId peerValidatorId epoch then n
  else
    { n with
      observedSuccessfulSessions :=
        n.observedSuccessfulSessions.insert (epoch, validatorId, peerValidatorId)
      observedFailedSessions :=
        n.observedFailedSessions.erase (epoch, validatorId, peerValidatorId) }

/-- Only peers that were seen alive can fail, and only before a success. -/
def recordFailedSession (epoch : Epoch) (validatorId peerValidatorId : ValidatorId) (n : Node) :
    Node :=
  if E.consensus.isRelayTargetFor validatorId peerValidatorId epoch &&
      n.knownLivePeers.contains peerValidatorId &&
      !n.observedSuccessfulSessions.contains (epoch, validatorId, peerValidatorId) then
    { n with
      observedFailedSessions :=
        n.observedFailedSessions.insert (epoch, validatorId, peerValidatorId) }
  else n

end

end Entangrid
