import Entangrid.Node.Sync

/-!
# Receipts, commitments and transactions

The hybrid signature policies, the receipt store, the checks of a block's commitment and of the
receipts and blocks that arrive by sync, and the mempool.
-/

namespace Entangrid

open NodeM

/-! ## Hybrid signature policies -/

section
variable (E : Env)

/-- With `require_hybrid_validator_signatures` on, every signature has the hybrid scheme. -/
def requireHybrid (signature : TypedSignature) (e : Error) : Except Error Unit :=
  rejectIf (E.config.featureFlags.requireHybridValidatorSignatures && signature.scheme != .hybrid) e

def validateHybridBlockPolicy (block : Block) : Except Error Unit :=
  requireHybrid E block.signature (.hybridBlock block.header.proposerId)

def validateHybridTransactionPolicy (transaction : SignedTransaction) : Except Error Unit :=
  requireHybrid E transaction.signature (.hybridTransaction transaction.signerId)

def validateHybridReceiptPolicy (receipt : RelayReceipt) : Except Error Unit :=
  requireHybrid E receipt.signature (.hybridReceipt receipt.witnessValidatorId)

def validateHybridServiceAttestationPolicy (attestation : ServiceAttestation) : Except Error Unit :=
  requireHybrid E attestation.signature (.hybridAttestation attestation.committeeMemberId)

def validateHybridProposalVotePolicy (vote : ProposalVote) : Except Error Unit :=
  requireHybrid E vote.signature (.hybridVote vote.validatorId)

/-- A signature check: errors of the backend are passed on, a negative answer is `e`. -/
def verifySignature (validatorId : ValidatorId) (message : HashBytes) (signature : TypedSignature)
    (e : Error) : Except Error Unit := do
  let verified ← ofCrypto (E.crypto.verify validatorId message signature)
  rejectIf (!verified) e

/-! ## The receipt store -/

/-- A receipt that fails its checks counts against its witness. -/
def countInvalidReceipt (receipt : RelayReceipt) (n : Node) : Node :=
  let key := (receipt.epoch, receipt.witnessValidatorId)
  { n with
    invalidReceipts := n.invalidReceipts + 1
    observedInvalidReceipts :=
      n.observedInvalidReceipts.insert key (n.observedInvalidReceipts.getD key 0 + 1) }

/-- The checks of `validate_receipt`; the flag tells whether a failure counts against the witness
(an error of the backend does not). -/
def receiptVerdict (receipt : RelayReceipt) : Except (Error × Bool) Unit :=
  match validateHybridReceiptPolicy E receipt with
  | .error e => .error (e, true)
  | .ok _ =>
    match E.crypto.verify receipt.witnessValidatorId (receiptSigningHash E.hashing receipt)
        receipt.signature with
    | .error detail => .error (.crypto detail, false)
    | .ok false => .error (.invalidReceiptSignature, true)
    | .ok true =>
      match E.consensus.validateReceiptAssignment receipt with
      | .error e => .error (e, true)
      | .ok _ => .ok ()

/-- A receipt that was seen before is not checked again. -/
def validateReceipt (receipt : RelayReceipt) : NodeM Unit := do
  let n ← Proc.get
  if n.seenReceipts.contains (E.hashing.canonicalHash (.receipt receipt)) then pure ()
  else
    match receiptVerdict E receipt with
    | .ok _ => pure ()
    | .error (e, counts) =>
      if counts then Proc.modify (countInvalidReceipt receipt) else pure ()
      Proc.throw e

/-- The receipt store after a new receipt. -/
def addReceipt (receipt : RelayReceipt) (n : Node) : Node :=
  { n with
    seenReceipts := n.seenReceipts.insert (E.hashing.canonicalHash (.receipt receipt))
    seenReceiptEvents := n.seenReceiptEvents.insert (receiptEventHash E.hashing receipt)
    receipts := n.receipts ++ [receipt] }

/-- A new receipt of a new event; false for the others. -/
def persistReceipt (receipt : RelayReceipt) : NodeM Bool := do
  let n ← Proc.get
  if n.seenReceipts.contains (E.hashing.canonicalHash (.receipt receipt)) then pure false
  else if n.seenReceiptEvents.contains (receiptEventHash E.hashing receipt) then pure false
  else
    Proc.modify (addReceipt E receipt)
    store (.appendReceipt receipt)
    pure true

/-- A receipt that fails its checks is dropped. -/
def storeReceipt (receipt : RelayReceipt) : NodeM Bool := do
  match ← Proc.attempt (validateReceipt E receipt) with
  | .error _ => pure false
  | .ok _ => persistReceipt E receipt

/-- The receipts of a block are stored without further checks. -/
def importCommitmentReceipts (receipts : List RelayReceipt) : NodeM Unit :=
  Proc.forEach receipts fun receipt => do
    let _ ← persistReceipt E receipt
    pure ()

/-- `current_slot()` of the engine: the slot of the present. -/
def currentSlot : NodeM Slot := do
  let t ← now E
  pure (E.consensus.slotAt t)

/-- `last_processed_slot.unwrap_or_else(|| current_slot())`. -/
def processedSlot : NodeM Slot := do
  let n ← Proc.get
  match n.lastProcessedSlot with
  | some slot => pure slot
  | none => currentSlot E

/-- The node signs what it heard if it is a witness of the source and the destination is one of its
relay targets. -/
def maybeIssueReceipt (sourceValidatorId destinationValidatorId : ValidatorId)
    (messageClass : MessageClass) (slot : Slot) (transcriptDigest byteHash : HashBytes)
    (sequenceNumber : Nat) : NodeM Unit := do
  let epoch := E.consensus.epochForSlot slot
  if !E.config.featureFlags.enableReceipts || sourceValidatorId == E.me ||
      !E.consensus.isWitnessFor E.me sourceValidatorId epoch ||
      !E.consensus.isRelayTargetFor sourceValidatorId destinationValidatorId epoch then pure ()
  else
    let unsigned : RelayReceipt :=
      { epoch, slot, sourceValidatorId, destinationValidatorId, witnessValidatorId := E.me
        messageClass, transcriptDigest
        latencyBucketMs := min E.genesis.slotDurationMillis 1000
        byteCountBucket := HashBytes.byte byteHash 0, sequenceNumber, signature := {} }
    let signature ← check (ofCrypto (E.crypto.sign E.me (receiptSigningHash E.hashing unsigned)))
    let receipt := { unsigned with signature }
    emit (.receiptSigned receipt)
    check (validateHybridReceiptPolicy E receipt)
    if ← storeReceipt E receipt then broadcast (.relayReceipt receipt) else pure ()

/-- The peers asked for the receipts of an epoch, each once. -/
def buildReceiptFetchPlan : List ValidatorId :=
  ((E.config.peers.map (·.validatorId)).dedup.insertionSort (· ≤ ·)).filter (· ≠ E.me)

/-- Ask all peers for the receipts of the node in an epoch. -/
def requestReceiptReconciliation (epoch : Epoch) : NodeM Unit :=
  if !E.config.featureFlags.enableReceipts || E.config.peers.isEmpty then pure ()
  else Proc.forEach (buildReceiptFetchPlan E) fun peerId =>
    sendTo E peerId (.receiptFetch E.me epoch E.me)

/-! ## Commitments -/

/-- The loop of `validate_commitment_bundle`, with the exact and the event hashes seen so far. -/
def validateCommitmentReceipts (commitment : TopologyCommitment) :
    List RelayReceipt → List HashBytes → List HashBytes → Except Error Unit
  | [], _, _ => .ok ()
  | receipt :: rest, exactHashes, eventHashes => do
    rejectIf (receipt.sourceValidatorId != commitment.validatorId) .commitmentReceiptSource
    rejectIf (receipt.epoch != commitment.epoch) .commitmentReceiptEpoch
    verifySignature E receipt.witnessValidatorId (receiptSigningHash E.hashing receipt)
      receipt.signature .commitmentReceiptSignature
    E.consensus.validateReceiptAssignment receipt
    let exactHash := E.hashing.canonicalHash (.receipt receipt)
    rejectIf (exactHashes.contains exactHash) .commitmentDuplicateReceipt
    let eventHash := receiptEventHash E.hashing receipt
    rejectIf (eventHashes.contains eventHash) .commitmentDuplicateReceiptEvent
    validateCommitmentReceipts commitment rest (exactHash :: exactHashes) (eventHash :: eventHashes)

/-- The receipts are valid and distinct, and give the commitment under the weights. -/
def validateCommitmentBundle (commitment : TopologyCommitment)
    (commitmentReceipts : List RelayReceipt) (weights : ServiceScoreWeights) :
    Except Error Unit := do
  validateCommitmentReceipts E commitment commitmentReceipts [] []
  let expected := E.consensus.commitmentFromReceiptsWithWeights commitment.validatorId
    commitment.epoch commitmentReceipts 0 0 weights
  rejectIf (!expected.eq commitment) .receiptRootMismatch

/-- The check of a block's commitment, with the weights it is scored with. -/
def validateBlockCommitment (weights : ServiceScoreWeights) (block : Block) : Except Error Unit := do
  rejectIf (block.commitment.isNone && !block.commitmentReceipts.isEmpty) .receiptsWithoutCommitment
  match block.commitment with
  | some commitment => validateCommitmentBundle E commitment block.commitmentReceipts weights
  | none => .ok ()

/-! ## Snapshots -/

/-- The loop of `validate_snapshot_receipts`. -/
def validateSnapshotReceipts :
    List RelayReceipt → List HashBytes → List HashBytes → Except Error Unit
  | [], _, _ => .ok ()
  | receipt :: rest, exactHashes, eventHashes => do
    let exactHash := E.hashing.canonicalHash (.receipt receipt)
    rejectIf (exactHashes.contains exactHash) .snapshotDuplicateReceipt
    let eventHash := receiptEventHash E.hashing receipt
    rejectIf (eventHashes.contains eventHash) .snapshotDuplicateReceiptEvent
    verifySignature E receipt.witnessValidatorId (receiptSigningHash E.hashing receipt)
      receipt.signature .snapshotReceiptSignature
    E.consensus.validateReceiptAssignment receipt
    validateSnapshotReceipts rest (exactHash :: exactHashes) (eventHash :: eventHashes)

/-- The checks of a block in sync: no hybrid policy, and the default weights. -/
def validateSnapshotBlock (ledger : LedgerState) (block : Block) (expectedParentHash : HashBytes) :
    Except Error Unit := do
  rejectIf (blockBodyHash E.hashing block != block.blockHash) .snapshotBlockHash
  verifySignature E block.header.proposerId block.blockHash block.signature .snapshotBlockSignature
  rejectIf (block.header.blockNumber != u64Add ledger.blockHeight 1) .snapshotBlockNumber
  E.consensus.validateBlockBasic block expectedParentHash none false .zero
  rejectIf (E.hashing.canonicalHash (.transactions block.transactions) !=
    block.header.transactionsRoot) .snapshotTransactionsRoot
  rejectIf (topologyRootOf E.hashing block != block.header.topologyRoot) .snapshotTopologyRoot
  validateBlockCommitment E defaultServiceScoreWeights block

/-- The validation loop shared by snapshots, segments and certified sync: every block is checked at
the ledger before it and then applied. -/
def validateSnapshotBlocks (ledger : LedgerState) (expectedParentHash : HashBytes) :
    List Block → Except Error LedgerState
  | [] => .ok ledger
  | block :: rest => do
    validateSnapshotBlock E ledger block expectedParentHash
    let nextLedger ← ledger.applyBlock E.hashing E.crypto block
    validateSnapshotBlocks nextLedger block.blockHash rest

/-- The chain replays from genesis to the claimed state. -/
def validateChainSnapshot (chain : ChainSnapshot) : Except Error LedgerState := do
  validateSnapshotReceipts E chain.receipts [] []
  let ledger ← validateSnapshotBlocks E (.fromGenesis E.genesis) empty_hash chain.blocks
  rejectIf (ledger.snapshot != chain.snapshot) .snapshotReplayMismatch
  .ok ledger

/-! ## Transactions -/

/-- The sender's pending transactions, by nonce. -/
def pendingFrom (n : Node) (account : AccountId) : List SignedTransaction :=
  sortBy (fun a b => compare a.transaction.nonce b.transaction.nonce)
    ((n.mempool.toList.map (·.2)).filter (·.transaction.fromAccount == account))

/-- Policy and ledger check of one transaction. -/
def checkTransaction (ledger : LedgerState) (transaction : SignedTransaction) :
    Except Error Unit := do
  validateHybridTransactionPolicy E transaction
  ledger.validateTx E.hashing E.crypto transaction

/-- The transactions of a list that pass, applied in order; the others are skipped. -/
def applyPassing (ledger : LedgerState) :
    List SignedTransaction → LedgerState × List SignedTransaction
  | [] => (ledger, [])
  | transaction :: rest =>
    match checkTransaction E ledger transaction with
    | .error _ => applyPassing ledger rest
    | .ok _ =>
      match ledger.applyTransaction transaction with
      | .error _ => applyPassing ledger rest
      | .ok ledger' =>
        let (final, accepted) := applyPassing ledger' rest
        (final, transaction :: accepted)

/-- The transaction is valid after the pending ones of its sender. -/
def validateTxAgainstMempool (n : Node) (transaction : SignedTransaction) : Except Error Unit :=
  let state := (applyPassing E n.ledger (pendingFrom n transaction.transaction.fromAccount)).1
  checkTransaction E state transaction

/-- The mempool entry of an admitted transaction. -/
def addTransaction (transaction : SignedTransaction) (n : Node) : Node :=
  { n with
    seenTransactions := n.seenTransactions.insert transaction.txHash
    mempool := n.mempool.insert transaction.txHash transaction }

/-- A new transaction that is valid after the pending ones is kept and passed on. -/
def handleTransaction (transaction : SignedTransaction) (fromValidatorId : ValidatorId)
    (localIngress : Bool) : NodeM Unit := do
  let n ← Proc.get
  if n.seenTransactions.contains transaction.txHash then pure ()
  else
    check (validateTxAgainstMempool E n transaction)
    Proc.modify (addTransaction transaction)
    emit (.transactionAdmitted transaction)
    let slot ← processedSlot E
    maybeIssueReceipt E fromValidatorId E.me .transaction slot transaction.txHash
      transaction.txHash transaction.transaction.nonce
    if localIngress || fromValidatorId != E.me then broadcast (.transactionBroadcast transaction)
    else pure ()

/-- The first of the mempool in the order of their hashes. -/
def selectTransactionsForBlock (n : Node) : List SignedTransaction :=
  (n.mempool.toList.map (·.2)).take E.genesis.maxTxsPerBlock

end

end Entangrid
