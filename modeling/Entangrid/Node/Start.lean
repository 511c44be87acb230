import Entangrid.Crypto.Build
import Entangrid.Node.Run

/-!
# Starting a node (`run_node`)

A node starts from what its data directory holds: `Disk` is the directory as its files read back,
`Disk.node` the runner that `run_node` builds from it, and `startNode` the restoring of evidence and
certificates before the event loop. `Disk.write` is what a storage write does to the directory, so
the directory at any moment of a run is a fold over the effects.
-/

namespace Entangrid

open NodeM

/-- With hybrid enforcement on, a node starts only if every validator of the genesis has a hybrid
identity. -/
def validateHybridEnforcementGenesis (E : Env) : Except Error Unit :=
  if !E.config.featureFlags.requireHybridValidatorSignatures then .ok ()
  else E.genesis.validators.forM fun validator =>
    rejectIf (validator.publicIdentity.scheme != .hybrid) (.hybridIdentity validator.validatorId)

/-- The first two steps of `run_node`. -/
def startCrypto {SigningKey VerifyingKey M : Type} (P : Primitives SigningKey VerifyingKey M)
    (files : KeyFiles) (E : Env) : Except Error (ConfiguredCryptoBackend M) := do
  validateHybridEnforcementGenesis E
  ofCrypto (buildCryptoBackend P files E.genesis E.config)

/-- The data directory, file by file. -/
structure Disk where
  blocks : List Block := []
  receipts : List RelayReceipt := []
  orphans : List Block := []
  serviceAttestations : List ServiceAttestation := []
  serviceAggregates : List ServiceAggregate := []
  quorumCertificates : List QuorumCertificate := []
  snapshot : Option StateSnapshot := none

namespace Disk

def write (d : Disk) : StorageWrite → Disk
  | .appendBlock block => { d with blocks := d.blocks ++ [block] }
  | .overwriteBlocks blocks => { d with blocks }
  | .writeSnapshot snapshot => { d with snapshot := some snapshot }
  | .appendReceipt receipt => { d with receipts := d.receipts ++ [receipt] }
  | .overwriteReceipts receipts => { d with receipts }
  | .appendOrphan block => { d with orphans := d.orphans ++ [block] }
  | .overwriteOrphans orphans => { d with orphans }
  | .appendServiceAttestation attestation =>
    { d with serviceAttestations := d.serviceAttestations ++ [attestation] }
  | .appendServiceAggregate aggregate =>
    { d with serviceAggregates := d.serviceAggregates ++ [aggregate] }
  | .appendQuorumCertificate qc => { d with quorumCertificates := d.quorumCertificates ++ [qc] }
  | .overwriteQuorumCertificates quorumCertificates => { d with quorumCertificates }

/-- The directory after some effects, the latest first. -/
def after (d : Disk) : List Effect → Disk
  | [] => d
  | .write w :: earlier => (d.after earlier).write w
  | _ :: earlier => d.after earlier

section
variable (E : Env) (d : Disk)

/-- The ledger a node starts with: a snapshot is taken as it is, without a look at the blocks. -/
def ledger : LedgerState :=
  match d.snapshot with
  | some snapshot => ⟨snapshot⟩
  | none =>
    match LedgerState.replayBlocks E.hashing E.crypto E.genesis d.blocks with
    | .ok ledger => ledger
    | .error _ => .fromGenesis E.genesis

end

end Disk

section
variable (E : Env)

def initialLastProcessedSlot (restoredLastSlot : Option Slot) (nowUnixMillis : Nat) : Option Slot :=
  if nowUnixMillis < E.genesis.genesisTimeUnixMillis then restoredLastSlot
  else
    let currentSlot := E.consensus.slotAt nowUnixMillis
    if currentSlot = 0 then restoredLastSlot
    else
      let liveFloor := currentSlot - 1
      some (max (restoredLastSlot.getD liveFloor) liveFloor)

/-- The runner before anything is restored. The clock is read a second time for the sync barrier,
unless an earlier part of its condition fails. -/
def Disk.node (d : Disk) : Node :=
  let ledger := d.ledger E
  let mayWait := E.config.syncOnStartup && !E.config.peers.isEmpty && decide (ledger.blockHeight > 0)
  { ledger
    blocks := d.blocks
    receipts := d.receipts
    lastProcessedSlot := initialLastProcessedSlot E (d.snapshot.map (·.lastSlot)) (E.clock 0)
    startupSyncBarrier := mayWait && decide (E.genesis.genesisTimeUnixMillis ≤ E.clock 1)
    clockReads := if mayWait then 2 else 1 }

def restoreServiceEvidence (attestations : List ServiceAttestation)
    (aggregates : List ServiceAggregate) : NodeM Unit :=
  if !E.v2 then pure ()
  else do
    Proc.forEach attestations fun attestation => do
      check (validateServiceAttestation E attestation)
      let _ ← insertServiceAttestation E attestation false
      pure ()
    Proc.forEach aggregates fun aggregate => do
      check (validateServiceAggregate E aggregate)
      let _ ← mergeServiceAggregate E aggregate false
      pure ()

/-- The loop body of `restore_quorum_certificates`. -/
def restoreQuorumCertificate (qc : QuorumCertificate) : NodeM Unit := do
  let n ← Proc.get
  match n.blocks.find? (·.blockHash == qc.blockHash) with
  | none => pure ()
  | some block => do
    check (validateQuorumCertificateForBlock E qc block)
    storeCertifiedVotes E qc.votes
    Proc.modify (·.addQc qc)

def restoreQuorumCertificates (qcs : List QuorumCertificate) : NodeM Unit := do
  Proc.forEach qcs (restoreQuorumCertificate E)
  let n ← Proc.get
  match n.highestLocalQc with
  | none => pure ()
  | some highest =>
    Proc.modify (·.pruneVotesNotExtendingCertifiedBlock highest.blockHash highest.blockNumber)

/-- What `run_node` does between building the runner and the event loop. -/
def startNode (d : Disk) : NodeM Unit := do
  restoreServiceEvidence E d.serviceAttestations d.serviceAggregates
  restoreQuorumCertificates E d.quorumCertificates
  Proc.modify (·.rebuildSeenSets E)

end

/-- The states of a node over all its lives: started on any directory, or with certificates restored
again, and any events handled. -/
inductive Alive (E : Env) : Node → Prop
  | start (d : Disk) {n : Node} (hrun : ((startNode E d).run (d.node E)).state? = some n) : Alive E n
  | restore (qcs : List QuorumCertificate) {n n' : Node} (hn : Alive E n)
      (hrun : ((restoreQuorumCertificates E qcs).run n).state? = some n') : Alive E n'
  | handle (fuel : Nat) (event : Event) {n n' : Node} (hn : Alive E n)
      (hrun : ((handleEvent E fuel event).run n).state? = some n') : Alive E n'

theorem Alive.runEvents {E : Env} {fuel : Nat} {events : List Event} {n n' : Node}
    (hn : Alive E n) (hrun : runEvents E fuel events n = some n') : Alive E n' :=
  runEvents_preserves (fun event _ _ _ hs h => .handle fuel event hs h) hn hrun

/-- The states of a node that started on the directory `d`. -/
inductive StartedOn (E : Env) (d : Disk) : Node → Prop
  | start {n : Node} (hrun : ((startNode E d).run (d.node E)).state? = some n) : StartedOn E d n
  | handle (fuel : Nat) (event : Event) {n n' : Node} (hn : StartedOn E d n)
      (hrun : ((handleEvent E fuel event).run n).state? = some n') : StartedOn E d n'

theorem StartedOn.runEvents {E : Env} {d : Disk} {fuel : Nat} {events : List Event} {n n' : Node}
    (hn : StartedOn E d n) (hrun : runEvents E fuel events n = some n') : StartedOn E d n' :=
  runEvents_preserves (fun event _ _ _ hs h => .handle fuel event hs h) hn hrun

end Entangrid
