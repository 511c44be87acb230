import Entangrid.Node.Proof.Certificates
import Entangrid.Node.Proof.Export
import Entangrid.Node.Proof.Extension
import Entangrid.Node.Proof.SuffixExchange

/-!
# Proposers and acceptors agree

`maybe_propose_block` applies the transactions that pass one by one and commits to its own receipts;
`accept_block` checks all of it again, with other code, on another node. What the proposer builds passes
those checks on every node at the same ledger, and such a node accepts it with the ledger the proposer
simulated.

* `validateReceivedBlock_of_buildProposal`: the checks that do not look at the acceptor.
* `proposals_are_accepted`: a proposal is accepted where it does not complete a certificate below a
  choice of children.
-/

namespace Entangrid

open LedgerState

section
variable {E E' : Env} {n m : Node} {block : Block}

/-! ## The simulation -/

/-- What the proposer accepts replays to the ledger it simulated. -/
theorem applyPassing_replays (l : LedgerState) (txs : List SignedTransaction) :
    l.applyTransactions E.hashing E.crypto (applyPassing E l txs).2 = .ok (applyPassing E l txs).1 ∧
      ∀ tx ∈ (applyPassing E l txs).2, validateHybridTransactionPolicy E tx = .ok () := by
  induction txs generalizing l with
  | nil => exact ⟨rfl, by simp [applyPassing]⟩
  | cons tx txs ih =>
    unfold applyPassing
    split
    · exact ih l
    · next hcheck =>
      split
      · exact ih l
      · next l' happly =>
        obtain ⟨_, hpolicy, hvalid⟩ := except_bind_ok.1 hcheck
        refine ⟨?_, List.forall_mem_cons.2 ⟨hpolicy, (ih l').2⟩⟩
        have hstep : l.validateAndApply E.hashing E.crypto tx = .ok l' :=
          except_bind_ok.2 ⟨_, hvalid, happly⟩
        exact except_bind_ok.2 ⟨l', hstep, (ih l').1⟩

/-- The receipts of a validator and an epoch in a sound store make a bundle. -/
theorem ReceiptsSound.bundle {receipts : List RelayReceipt} (h : ReceiptsSound E receipts)
    {commitment : TopologyCommitment} : validateCommitmentReceipts E commitment
      (ConsensusEngine.receiptsForValidator commitment.validatorId commitment.epoch receipts) [] [] =
        .ok () := by
  have hsub := List.filter_sublist (l := receipts)
    (p := fun r => r.sourceValidatorId == commitment.validatorId && r.epoch == commitment.epoch)
  refine validateCommitmentReceipts_ok.2 ⟨validateSnapshotReceipts_ok.2 ⟨?_, by simp, by simp⟩, ?_⟩
  · exact ⟨fun r hr => h.valid r (hsub.mem hr), h.distinct.sublist (hsub.map _),
      h.distinctEvents.sublist (hsub.map _)⟩
  · intro r hr
    simpa using (List.mem_filter.1 hr).2

theorem TopologyCommitment.eq_self {commitment : TopologyCommitment}
    (h : commitment.summary.relayScore.isNaN = false) : commitment.eq commitment = true := by
  simp [TopologyCommitment.eq, F64.eq, h]

/-! ## The proposer's block passes -/

/-- The node's signatures verify, and satisfy the hybrid policy where it is on. -/
structure SignsCorrectly (E : Env) : Prop where
  signs : ∀ message, ∃ signature, E.crypto.sign E.me message = .ok signature
  verifies : ∀ message signature, E.crypto.sign E.me message = .ok signature →
    E.crypto.verify E.me message signature = .ok true ∧
      (E.config.featureFlags.requireHybridValidatorSignatures = true → signature.scheme = .hybrid)

theorem SignsCorrectly.hybrid (h : SignsCorrectly E) {message : HashBytes}
    {signature : TypedSignature} (hsign : E.crypto.sign E.me message = .ok signature) (e : Error) :
    requireHybrid E signature e = .ok () := by
  unfold requireHybrid
  rw [rejectIf_ok]
  cases hflag : E.config.featureFlags.requireHybridValidatorSignatures with
  | false => rfl
  | true => simp [(h.verifies message signature hsign).2 hflag]

theorem ofCrypto_ok {α : Type} {x : Except String α} {a : α} : ofCrypto x = .ok a ↔ x = .ok a := by
  cases x <;> simp [ofCrypto]

/-- The commitment a proposer makes over its receipts is the one the acceptor computes. -/
theorem validateCommitmentBundle_own {receipts : List RelayReceipt} (h : ReceiptsSound E receipts)
    {v : ValidatorId} {epoch : Epoch} {weights : ServiceScoreWeights} {own : List RelayReceipt}
    {commitment : TopologyCommitment}
    (hown : own = ConsensusEngine.receiptsForValidator v epoch receipts)
    (hcommitment : commitment =
      E.consensus.commitmentFromReceiptsWithWeights v epoch own 0 0 weights)
    (hscore : commitment.summary.relayScore.isNaN = false) :
    validateCommitmentBundle E commitment own weights = .ok () := by
  have hbundle : validateCommitmentReceipts E commitment own [] [] = .ok () := by
    rw [hown, hcommitment]
    exact h.bundle
  have hsame : E.consensus.commitmentFromReceiptsWithWeights commitment.validatorId commitment.epoch
      own 0 0 weights = commitment := by
    rw [hcommitment]
    rfl
  refine except_bind_ok.2 ⟨(), hbundle, ?_⟩
  rw [rejectIf_ok, hsame, TopologyCommitment.eq_self hscore]
  rfl

/-- **What a proposer builds passes the checks of `accept_block`.** -/
theorem validateReceivedBlock_of_buildProposal (hreceipts : ReceiptsSound E n.receipts)
    (hsigns : SignsCorrectly E) {slot : Slot} {epoch : Epoch} {timestamp : Nat}
    (hslot : E.consensus.proposerForSlot slot = E.me)
    (hbuild : buildProposal E n slot epoch timestamp = .ok block)
    (hscore : ∀ c, block.commitment = some c → c.summary.relayScore.isNaN = false) :
    validateReceivedBlock E block = .ok () := by
  obtain ⟨signature, hsign, hbuild⟩ := except_bind_ok.1 hbuild
  rw [ofCrypto_ok] at hsign
  obtain rfl := Except.ok.inj hbuild
  obtain ⟨hverify, -⟩ := hsigns.verifies _ _ hsign
  have hpolicies := (applyPassing_replays (E := E) n.ledger (selectTransactionsForBlock E n)).2
  simp only [validateReceivedBlock, except_bind_ok, rejectIf_ok, verifySignature_ok, forM_ok,
    exists_const, validateHybridBlockPolicy]
  refine ⟨?_, hverify, ?_, ?_, ?_, (), ?_, hpolicies, hsigns.hybrid hsign _⟩
  · simp [blockBodyHash]
  · simp [hslot]
  · simp
  · cases E.config.featureFlags.enableReceipts && epoch > 0 <;> simp [topologyRootOf]
  · by_cases hcommits : E.config.featureFlags.enableReceipts && epoch > 0
    · simp only [validateBlockCommitment, hcommits, if_true]
      exact validateCommitmentBundle_own hreceipts rfl rfl (hscore _ (by simp [hcommits]))
    · simp [validateBlockCommitment, hcommits, rejectIf, bind, Except.bind]

/-! ## Other nodes -/

theorem Env.SameNetwork.validateReceivedBlock_eq (h : E.SameNetwork E')
    (hflags : E'.config.featureFlags = E.config.featureFlags) (block : Block) :
    validateReceivedBlock E' block = validateReceivedBlock E block := by
  have hpolicy : validateHybridTransactionPolicy E' = validateHybridTransactionPolicy E := by
    funext tx
    simp only [validateHybridTransactionPolicy, requireHybrid, hflags]
  simp only [validateReceivedBlock, validateBlockCommitment, validateCommitmentBundle,
    validateHybridBlockPolicy, requireHybrid, hpolicy, hflags, h.hashing, h.verifySignature_eq,
    h.consensus_eq, h.validateCommitmentReceipts_eq]

/-- The ledger a proposal leads to. -/
def proposedLedger (E : Env) (n : Node) (block : Block) : LedgerState :=
  ⟨{ (applyPassing E n.ledger (selectTransactionsForBlock E n)).1.snapshot with
     tipHash := block.blockHash
     height := block.header.blockNumber
     lastSlot := block.header.slot }⟩

/-- A proposal extends the proposer's ledger as it was simulated. -/
theorem applyBlock_of_buildProposal {slot : Slot} {epoch : Epoch} {timestamp : Nat}
    (hbuild : buildProposal E n slot epoch timestamp = .ok block) :
    block.header.parentHash = n.ledger.snapshot.tipHash ∧
      n.ledger.applyBlock E.hashing E.crypto block = .ok (proposedLedger E n block) := by
  obtain ⟨signature, -, hbuild⟩ := except_bind_ok.1 hbuild
  obtain rfl := Except.ok.inj hbuild
  refine ⟨rfl, except_bind_ok.2 ⟨_, (applyPassing_replays _ _).1, except_bind_ok.2 ⟨(), ?_, rfl⟩⟩⟩
  simp [rejectIf_ok]

theorem proposer_of_validateReceivedBlock (h : validateReceivedBlock E block = .ok ()) :
    block.header.proposerId = E.consensus.proposerForSlot block.header.slot := by
  simp only [validateReceivedBlock, except_bind_ok, rejectIf_ok] at h
  obtain ⟨_, -, _, -, _, hproposer, -⟩ := h
  simpa using hproposer

/-- Gating is not enforced for blocks of others, so nothing else is checked of an extension. -/
theorem validateExtension_received {ledger : LedgerState}
    (hproposer : block.header.proposerId = E.consensus.proposerForSlot block.header.slot)
    (hparent : block.header.parentHash = n.ledger.snapshot.tipHash)
    (happly : n.ledger.applyBlock E.hashing E.crypto block = .ok ledger) :
    validateExtension E n block false = .ok ledger := by
  have hgating : serviceGatingForBlock E n block false = (false, none) := by
    simp [serviceGatingForBlock, shouldEnforceServiceGatingForBlock]
  unfold validateExtension
  rw [hgating]
  refine except_bind_ok.2 ⟨(), ?_, happly⟩
  simp [ConsensusEngine.validateBlockBasic, hproposer, hparent, rejectIf, bind, Except.bind]

/-- The vote a node casts for a block passes its own checks. -/
theorem SignsCorrectly.ownVote (h : SignsCorrectly E) (hme : E.me ∈ genesisIds E) (block : Block) :
    ∃ vote, buildLocalProposalVote E block = .ok vote ∧
      validateProposalVoteForBlock E vote block = .ok () := by
  obtain ⟨signature, hsign⟩ := h.signs (proposalVoteSigningHash E.hashing
    { validatorId := E.me, blockHash := block.blockHash, blockNumber := block.header.blockNumber
      epoch := block.header.epoch, slot := block.header.slot, signature := {} })
  refine ⟨_, except_bind_ok.2 ⟨signature, ofCrypto_ok.2 hsign, rfl⟩, ?_⟩
  refine except_bind_ok.2 ⟨(), ?_, except_bind_ok.2 ⟨(), h.hybrid hsign _, ?_⟩⟩
  · exact validateProposalVoteSignatureAndSigner_ok.2 ⟨hme, (h.verifies _ _ hsign).1⟩
  · simp [rejectIf_ok]

/-! ## The acceptor's state -/

variable {S : Set Block}

theorem Reachable.certInv (hS : CollisionFree E.hashing S) (hn : Reachable E (BlocksFrom S) n)
    (hown : ∀ b ∈ n.builtBlocks, b ∈ S) : CertInv E S n := by
  refine hn.invariant (I := fun n => (∀ b ∈ n.builtBlocks, b ∈ S) → CertInv E S n)
    admits_blocksFrom (fun slot _ => ⟨by simp [Node.knownBlocks, Node.fresh],
      by simp [Node.takenOrphans, Node.fresh], by simp [Node.fresh], by simp [Node.fresh], .empty⟩)
    (fun n n' hc ih hstep hown' => ?_) hown
  have hown : ∀ b ∈ n.builtBlocks, b ∈ S := fun b hb =>
    hown' b ((hstep.effects_suffix.filterMap _).mem hb)
  exact (ih hown).step hS hstep ((ih hown).known_of_new hstep fun b hnew =>
    (hnew.arrived hc).elim id (Or.elim · id (hown b)))

/-- Certificates lie under their blocks. -/
theorem Reachable.certificatesKeyed (hn : Reachable E AnyEvent n) :
    ∀ (k : HashBytes) (qc : QuorumCertificate), n.quorumCertificates[k]? = some qc →
      qc.blockHash = k :=
  hn.invariant admits_any (I := fun n => ∀ (k : HashBytes) (qc : QuorumCertificate),
      n.quorumCertificates[k]? = some qc → qc.blockHash = k) (fun slot => by simp [Node.fresh])
    fun _ _ _ h hstep k qc hqc => (hstep.certificates hqc).elim (h k qc) (·.1)

theorem Node.mem_votersFor {k : HashBytes} {v : ValidatorId} {vote : ProposalVote}
    (h : n.Found k v vote) : v ∈ n.votersFor k := by
  have hkeys {votes : VoteMap} (hv : VoteMap.lookup votes k v = some vote) :
      v ∈ (votes.getD k ∅).keys := by
    rw [Std.ExtTreeMap.mem_keys, ← Std.ExtTreeMap.isSome_getElem?_iff_mem]
    exact Option.isSome_iff_exists.2 ⟨vote, hv⟩
  rw [Node.votersFor, List.mem_toFinset, List.mem_append]
  exact h.imp hkeys hkeys

/-- Nothing moves the node on from a block when it becomes the tip: it knows at most one child, or the
votes for the block stay below the threshold with its own. -/
def StaysOn (E : Env) (n : Node) (blockHash : HashBytes) : Prop :=
  (n.childrenOf blockHash).length ≤ 1 ∨ (n.hasQc blockHash = false ∧
    (insert E.me (n.votersFor blockHash)).card <
      quorumCertificateThreshold E.genesis.validators.length)

theorem Reachable.readyFor (hS : CollisionFree E.hashing S) (hn : Reachable E (BlocksFrom S) n)
    (hown : ∀ b ∈ n.builtBlocks, b ∈ S) (hblock : Sound E.hashing S block)
    (huncertified : ∀ b ∈ n.blocks, n.hasQc b.blockHash = false)
    (hstays : StaysOn E n block.blockHash) :
    ReadyFor E (insert E.me (n.votersFor block.blockHash)) block n where
  uncertified := huncertified
  keyed qc := (hn.mono fun _ _ _ => trivial).certificatesKeyed _ qc
  votes v vote hv :=
    have hchecked := (hn.certInv hS hown).votes _ v vote hv
    ⟨hchecked.blockHash, Finset.mem_insert_of_mem (Node.mem_votersFor (.inl hv)),
      hchecked.valid block hblock rfl⟩
  buffered v vote hv := by
    obtain ⟨hhash, hvoter⟩ := (hn.mono fun _ _ _ => trivial).voteInv.keyed _ v vote (.inr hv)
    exact ⟨hhash, hvoter ▸ Finset.mem_insert_of_mem (Node.mem_votersFor (.inr hv))⟩
  quiet := hstays

/-- **Proposers and acceptors agree.** A block a proposer builds on a sound receipt store is accepted by
every reachable node of the network that is at the proposer's ledger, does not know the block, has no
certificate on its chain and stays on the block; it ends at the ledger the proposer simulated. -/
theorem proposals_are_accepted (E E' : Env) (hpeer : E.SameNetwork E')
    (hflags : E'.config.featureFlags = E.config.featureFlags) (hsigns : SignsCorrectly E)
    (hsigns' : SignsCorrectly E') (hvalidator : E'.me ∈ genesisIds E') (n m : Node) (slot : Slot)
    (timestamp : Nat) (block : Block) (hreceipts : ReceiptsSound E n.receipts)
    (hslot : E.consensus.proposerForSlot slot = E.me)
    (hbuild : buildProposal E n slot (E.consensus.epochForSlot slot) timestamp = .ok block)
    (hscore : ∀ c, block.commitment = some c → c.summary.relayScore.isNaN = false)
    (S : Set Block) (hS : CollisionFree E'.hashing S) (hm : Reachable E' (BlocksFrom S) m)
    (hown : ∀ b ∈ m.builtBlocks, b ∈ S) (hblock : block ∈ S) (hledger : m.ledger = n.ledger)
    (hnew : m.knownBlock block.blockHash = none)
    (huncertified : ∀ b ∈ m.blocks, m.hasQc b.blockHash = false)
    (hstays : StaysOn E' m block.blockHash) (fuel : Nat) : ∃ m',
    (acceptBlock E' (fuel + 1) block false).run m = .ok .accepted m' ∧
      m'.ledger = proposedLedger E n block := by
  have hvalid : validateReceivedBlock E' block = .ok () := by
    rw [hpeer.validateReceivedBlock_eq hflags]
    exact validateReceivedBlock_of_buildProposal hreceipts hsigns hslot hbuild hscore
  obtain ⟨hparent, happly⟩ := applyBlock_of_buildProposal hbuild
  rw [← hledger] at hparent
  rw [← hledger, ← hpeer.applyBlock_eq] at happly
  have hextension :=
    validateExtension_received (proposer_of_validateReceivedBlock hvalid) hparent happly
  have hhead : m.certifiedHeadOnlyActive E' = false := by
    simpa [Node.certifiedHeadOnlyActive, Node.highestLockedQcHash] using fun _ => huncertified
  have hextend : Step E' { blocks := S, carried := S } m (m.extended (proposedLedger E n block) block) :=
    .extend block hnew hvalid ⟨trivial, .inl hblock⟩ hparent happly (.inl hhead) trivial
  have hstore := (hm.storeInv hS hown).step hS hextend (hextend.known_of_arrived
    (hm.covers admits_blocksFrom) fun b hb => hb.elim id (Or.elim · id (hown b)))
  have hsound : Sound E'.hashing S block := ⟨hblock, hashed_of_validateReceivedBlock hvalid⟩
  have hnonempty : ∀ b ∈ m.blocks ++ [block], b.blockHash ≠ empty_hash := by
    have hne {b : Block} (hb : Sound E'.hashing S b) : b.blockHash ≠ empty_hash :=
      hb.2 ▸ hS.nonempty b hb.1
    intro b hb
    rcases List.mem_append.1 hb with hb | hb
    · exact hne ((hm.certInv hS hown).known b (Node.mem_knownBlocks.2 (.inl hb)))
    · exact hne (List.mem_singleton.1 hb ▸ hsound)
  have hself : block.header.parentHash ≠ block.blockHash := by
    rw [hparent, (hm.storeInv hS hown).tip]
    exact parent_ne_of_new hnew (hnonempty block (by simp))
  have hpos : 0 < E'.genesis.validators.length := by
    obtain ⟨validator, hvalidator, -⟩ := List.mem_map.1 (List.mem_toFinset.1 hvalidator)
    exact List.length_pos_of_mem hvalidator
  obtain ⟨m', hrun, hm'⟩ := acceptExtension_stays hpos hstore.toBlockStore hnonempty
    (hm.readyFor hS hown hsound huncertified hstays) hself (Finset.mem_insert_self _ _)
    (fun _ => hsigns'.ownVote hvalidator block) fuel
  refine ⟨m', ?_, hm'⟩
  rw [← hrun]
  unfold acceptBlock
  rw [Proc.run_get_bind, hnew]
  simp only [Option.isSome_none, Bool.false_eq_true, if_false, NodeM.check]
  rw [Proc.run_ofExcept_bind_of_ok hvalid, if_neg (by simpa using hparent),
    Proc.run_ofExcept_bind_of_ok hextension]
  simp [hhead]

end

/-! ## Runs -/

theorem sampleEnv_signsCorrectly {v : ValidatorId} {secret : String}
    (h : (DeterministicCryptoBackend.fromGenesis rollingHashing sampleGenesis).secrets[v]? =
      some secret) : SignsCorrectly (sampleEnv v) := by
  have hsign (message : HashBytes) : (sampleEnv v).crypto.sign v message =
      .ok ⟨.devDeterministic, HashBytes.toVec (rollingHashing.hashSecret secret message), []⟩ := by
    change DeterministicCryptoBackend.sign _ _ _ = _
    simp only [DeterministicCryptoBackend.sign, DeterministicCryptoBackend.secret, h]
    rfl
  refine ⟨fun message => ⟨_, hsign message⟩, fun message signature hs => ⟨?_, by
    simp [sampleEnv, sampleFlags]⟩⟩
  obtain rfl := Except.ok.inj ((hsign message).symm.trans hs)
  have hverify : (sampleEnv v).crypto.verify = DeterministicCryptoBackend.verify
      (.fromGenesis rollingHashing sampleGenesis) := rfl
  rw [hverify, DeterministicCryptoBackend.verify, if_neg (by simp)]
  exact except_bind_ok.2 ⟨_, hsign message, by simp⟩

/-- What validator 4 proposes in slot 0 on the empty chain. -/
theorem first_proposal :
    buildProposal (sampleEnv 4) (.fresh (sampleEnv 4) none) 0 0 0 = .ok firstBlock := rfl

theorem sample_signer {v : ValidatorId} (hv : v ∈ [1, 2, 3, 4]) : SignsCorrectly (sampleEnv v) := by
  have hsecrets : ∀ v ∈ [1, 2, 3, 4], ((DeterministicCryptoBackend.fromGenesis rollingHashing
      sampleGenesis).secrets[v]?).isSome = true := by decide +kernel
  obtain ⟨secret, hsecret⟩ := Option.isSome_iff_exists.1 (hsecrets v hv)
  exact sampleEnv_signsCorrectly hsecret

/-- Three transfers of two validators, the second with the nonce after that of the first. -/
def queuedTransfers : List SignedTransaction :=
  [signedTransfer 1 (validatorAccount 2) 5 0, signedTransfer 1 (validatorAccount 3) 2 1,
    signedTransfer 2 (validatorAccount 1) 3 0]

/-- Validator 2 has the first block, the transfers and the receipt. -/
def proposerEvents : List Event :=
  .received 4 (.blockProposal firstBlock) :: .received 3 (.relayReceipt heartbeatReceiptOf2) ::
    queuedTransfers.map fun tx => .received 1 (.transactionBroadcast tx)

/-- Validator 1 has the first block, and the vote of validator 2 for it. -/
def acceptorEvents : List Event :=
  [.received 4 (.blockProposal firstBlock),
    .received 2 (.proposalVote (signedProposalVote 2 firstBlock))]

/-- What validator 2 proposes in slot 5, the first of epoch 1. -/
def proposalOf2 (n : Node) : Except Error Block :=
  buildProposal (receiptEnv 2) n 5 ((receiptEnv 2).consensus.epochForSlot 5) 0

def secondProposal : Block :=
  ((runEvents (receiptEnv 2) 8 proposerEvents (.fresh (receiptEnv 2) (some 1))).bind fun n =>
    (proposalOf2 n).toOption).getD firstBlock

theorem proposer_run :
    (runEvents (receiptEnv 2) 8 proposerEvents (.fresh (receiptEnv 2) (some 1))).map (fun n =>
      ((selectTransactionsForBlock (receiptEnv 2) n).map (·.transaction),
        (proposalOf2 n).toOption.map (·.transactions.map (·.transaction)))) =
      some ([queuedTransfers[2].transaction, queuedTransfers[1].transaction,
        queuedTransfers[0].transaction],
        some [queuedTransfers[2].transaction, queuedTransfers[0].transaction]) := by
  decide +kernel

theorem second_proposal :
    secondProposal.commitmentReceipts.length = 1 ∧ secondProposal.commitment.isSome = true ∧
    (∀ c ∈ secondProposal.commitment, c.summary.relayScore.isNaN = false) ∧
    CollisionFree rollingHashing {b | b ∈ [firstBlock, secondProposal]} :=
  ⟨by decide +kernel, by decide +kernel, by decide +kernel,
    .of_nodup (by decide +kernel) (by decide +kernel)⟩

theorem acceptor_run :
    (runEvents (receiptEnv 1) 8 acceptorEvents (.fresh (receiptEnv 1) (some 1))).map (fun m =>
      (m.blocks.length, m.builtBlocks.isEmpty && (m.knownBlock secondProposal.blockHash).isNone &&
        m.blocks.all (fun b => !m.hasQc b.blockHash) &&
        (m.childrenOf secondProposal.blockHash).isEmpty,
        decide (m.votersFor firstBlock.blockHash = {1, 2}),
        (runEvents (receiptEnv 2) 8 proposerEvents (.fresh (receiptEnv 2) (some 1))).map
          fun n => decide (m.ledger = n.ledger))) = some (1, true, true, some true) := by
  decide +kernel

/-- Validator 2 leaves out the second of three selected transfers, and commits to a receipt; validator 1,
with a block and two votes for it, accepts the proposal. -/
theorem second_proposal_accepted : ∃ n m m', Reachable (receiptEnv 2) AnyEvent n ∧
    (selectTransactionsForBlock (receiptEnv 2) n).length = 3 ∧
    secondProposal.transactions.length = 2 ∧ secondProposal.commitmentReceipts.length = 1 ∧
    m.blocks.length = 1 ∧ m.votersFor firstBlock.blockHash = {1, 2} ∧
    (acceptBlock (receiptEnv 1) 8 secondProposal false).run m = .ok .accepted m' ∧
    m'.ledger = proposedLedger (receiptEnv 2) n secondProposal := by
  obtain ⟨n, hn, hproposer⟩ := Option.map_eq_some_iff.1 proposer_run
  obtain ⟨m, hm, hacceptor⟩ := Option.map_eq_some_iff.1 acceptor_run
  simp only [Prod.mk.injEq] at hproposer
  obtain ⟨hselected, hproposed⟩ := hproposer
  obtain ⟨block, hblock, htransactions⟩ := Option.map_eq_some_iff.1 hproposed
  obtain rfl : secondProposal = block := by
    rw [secondProposal, hn, Option.bind_some, hblock, Option.getD_some]
  simp only [hn, Option.map_some, Prod.mk.injEq, Bool.and_eq_true, List.isEmpty_iff, List.all_eq_true,
    Option.isNone_iff_eq_none, Bool.not_eq_true', decide_eq_true_eq, Option.some.injEq] at hacceptor
  obtain ⟨hchain, ⟨⟨⟨hbuilt, hunknown⟩, huncertified⟩, hchildren⟩, hvoters, hledger⟩ := hacceptor
  obtain ⟨hreceipts, -, hscore, hS⟩ := second_proposal
  have hreachable : Reachable (receiptEnv 2) AnyEvent n :=
    .runEvents (.fresh _) (fun _ _ _ => trivial) hn
  have harrives : Reachable (receiptEnv 1) (BlocksFrom {b | b ∈ [firstBlock, secondProposal]}) m := by
    refine .runEvents (.fresh _) (fun event he _ => ?_) hm
    simp only [acceptorEvents, List.mem_cons, List.not_mem_nil, or_false] at he
    rcases he with rfl | rfl <;> simp [BlocksFrom, Event.blocks]
  have hsigns {v : ValidatorId} (hv : v ∈ [1, 2, 3, 4]) : SignsCorrectly (receiptEnv v) :=
    ⟨(sample_signer hv).signs, (sample_signer hv).verifies⟩
  obtain ⟨m', haccepted, hend⟩ := proposals_are_accepted (receiptEnv 2) (receiptEnv 1)
    ⟨rfl, rfl, rfl, rfl⟩ rfl (hsigns (by decide)) (hsigns (by decide)) (by decide +kernel) n m 5 0
    secondProposal hreachable.receiptInv.book.toReceiptsSound (by decide +kernel)
    (toOption_eq_some.1 hblock) hscore _ hS harrives (by simp [hbuilt]) (by simp) hledger hunknown
    huncertified (.inl (by simp [hchildren])) 7
  refine ⟨n, m, m', hreachable, ?_, ?_, hreceipts, hchain, hvoters, haccepted, hend⟩
  · simpa using congrArg List.length hselected
  · simpa using congrArg List.length htransactions

/-- Validator 1 has two blocks on the first one before it, and three votes for the first. -/
def moveOnEvents : List Event :=
  [.received 2 (.blockProposal secondBlock), .received 2 (.blockProposal lateBlock),
    .received 2 (.proposalVote (signedProposalVote 2 firstBlock)),
    .received 3 (.proposalVote (signedProposalVote 3 firstBlock)),
    .received 4 (.proposalVote (signedProposalVote 4 firstBlock))]

theorem move_on_run : (runEvents (sampleEnv 1) 8 moveOnEvents (.fresh (sampleEnv 1) (some 2))).map
    (fun m => (decide (m.ledger = .fromGenesis sampleGenesis),
      (m.knownBlock firstBlock.blockHash).isNone, m.blocks.length,
      ((acceptBlock (sampleEnv 1) 8 firstBlock false).run m).value?,
      ((acceptBlock (sampleEnv 1) 8 firstBlock false).run m).state?.map
        fun m' => m'.ledger.snapshot.tipHash)) =
    some (true, true, 0, some .accepted, some lateBlock.blockHash) := by
  decide +kernel

/-- A node at the proposer's ledger accepts the proposal and moves on to a child of it at once: the
votes it has for the block complete a certificate. -/
theorem acceptor_moves_on : SignsCorrectly (sampleEnv 4) ∧ SignsCorrectly (sampleEnv 1) ∧
    Reachable (sampleEnv 4) AnyEvent (.fresh (sampleEnv 4) none) ∧
    buildProposal (sampleEnv 4) (.fresh (sampleEnv 4) none) 0 ((sampleEnv 4).consensus.epochForSlot 0) 0 =
      .ok firstBlock ∧
    ∃ m m', Reachable (sampleEnv 1) AnyEvent m ∧ m.ledger = (Node.fresh (sampleEnv 4) none).ledger ∧
      m.knownBlock firstBlock.blockHash = none ∧ (∀ b ∈ m.blocks, m.hasQc b.blockHash = false) ∧
      (acceptBlock (sampleEnv 1) 8 firstBlock false).run m = .ok .accepted m' ∧
      m'.ledger ≠ proposedLedger (sampleEnv 4) (.fresh (sampleEnv 4) none) firstBlock := by
  obtain ⟨m, hm, hvalues⟩ := Reachable.of_map (P := AnyEvent) 8 _ _ _ _ (fun _ _ _ => trivial)
    move_on_run
  simp only [Prod.mk.injEq, decide_eq_true_eq, List.length_eq_zero_iff, Option.isNone_iff_eq_none]
    at hvalues
  obtain ⟨hledger, hunknown, hblocks, hvalue, hstate⟩ := hvalues
  obtain ⟨m', hrun⟩ := Out.value?_eq_some.1 hvalue
  refine ⟨sample_signer (by decide), sample_signer (by decide), .fresh none, first_proposal, m, m', hm, hledger,
    hunknown, by simp [hblocks], hrun, fun heq => ?_⟩
  have htip : m'.ledger.snapshot.tipHash = lateBlock.blockHash := by
    simpa [hrun, Out.state?] using hstate
  rw [heq] at htip
  exact absurd htip (by decide +kernel)

end Entangrid
