import Entangrid.Node.Proof.Handlers

/-!
# Where handlers file what they record

Receipts, attestations, aggregates and certificates are kept in memory and in files. `Filing` lists
the places where either changes, each an update together with its write; a relation that allows
these, and all that concerns neither (`Node.filed` stays), holds along every handler.
-/

namespace Entangrid

open Proc (Always Moves)

/-! ## What is on record -/

/-- The writes to the files of receipts, attestations, aggregates and certificates. -/
def StorageWrite.ofRecords : StorageWrite → Bool
  | .appendReceipt _ | .overwriteReceipts _ | .appendServiceAttestation _
  | .appendServiceAggregate _
  | .appendQuorumCertificate _ | .overwriteQuorumCertificates _ => true
  | _ => false

def Effect.ofRecords : Effect → Bool
  | .write w => w.ofRecords
  | _ => false

/-- The receipts, attestations and certificates a node holds, and what it wrote of them. -/
structure Filed where
  receipts : List RelayReceipt
  serviceAttestations : BTreeMap (ValidatorId × Epoch) (BTreeMap ValidatorId ServiceAttestation)
  quorumCertificates : BTreeMap HashBytes QuorumCertificate
  effects : List Effect

namespace Node

def filed (n : Node) : Filed where
  receipts := n.receipts
  serviceAttestations := n.serviceAttestations
  quorumCertificates := n.quorumCertificates
  effects := n.effects.filter Effect.ofRecords

variable {n n' : Node}

theorem filed_of_core (hcore : n'.core = n.core) (hrecords : n'.records = n.records) :
    n'.filed = n.filed := by
  have hreceipts : n'.receipts = n.receipts := congrArg Records.receipts hrecords
  have hattestations : n'.serviceAttestations = n.serviceAttestations :=
    congrArg Records.serviceAttestations hrecords
  simp only [filed, hreceipts, hattestations, core_certificates hcore, core_effects hcore]

theorem filed_withEffect (n : Node) {e : Effect} (h : e.ofRecords = false) :
    (n.withEffect e).filed = n.filed := by
  simp [filed, withEffect, h]

theorem filed_addVote (n : Node) (vote : ProposalVote) : (n.addVote vote).filed = n.filed := rfl

theorem filed_addBufferedVote (n : Node) (vote : ProposalVote) :
    (n.addBufferedVote vote).filed = n.filed := rfl

/-- A built certificate is filed as an imported one. -/
theorem filed_built (n : Node) (qc : QuorumCertificate) :
    ((((n.addQc qc).withEffect (.qcBuilt qc)).written (.appendQuorumCertificate qc)
      ).pruneVotesNotExtendingCertifiedBlock qc.blockHash qc.blockNumber).filed =
      ((n.addQc qc).written (.appendQuorumCertificate qc)).filed := rfl

theorem filed_withoutVotes (n : Node) (votes : List ProposalVote) :
    (n.withoutVotes votes).filed = n.filed := by
  rw [withoutVotes_eq]
  rfl

end Node

/-- The relation allows what is off record, and the ways in which receipts, attestations, aggregates
and certificates are recorded. -/
structure Filing (E : Env) (R : Node → Node → Prop) : Prop where
  offRecord : ∀ {n n' : Node}, n'.filed = n.filed → R n n'
  receipt : ∀ (n : Node) (receipt : RelayReceipt), R n (n.withReceipt E receipt)
  attested : ∀ {n : Node} {a : ServiceAttestation}, E.v2 = true →
    validateServiceAttestation E a = .ok () →
    attestationReplaces E
      ((n.serviceAttestations.getD (a.subjectValidatorId, a.epoch) ∅)[a.committeeMemberId]?) a =
        true →
    R n ((addServiceAttestation E a n).written (.appendServiceAttestation a))
  aggregated : ∀ {n : Node} {g : ServiceAggregate},
    buildServiceAggregate E n g.subjectValidatorId g.epoch = some g →
    R n ((addServiceAggregate E g n).written (.appendServiceAggregate g))
  certified : ∀ {n : Node} {qc : QuorumCertificate}, n.hasQc qc.blockHash = false →
    R n ((n.addQc qc).written (.appendQuorumCertificate qc))
  retained : ∀ (n : Node) (applied : List Block), R n ((n.retainEvidenceFor applied).written
    (.overwriteQuorumCertificates (n.retainEvidenceFor applied).certificates))
  adopted : ∀ (n : Node) (ledger : LedgerState) (chain : List Block), R n (n.adopted E ledger chain)
  snapshotted : ∀ (n : Node) (ledger : LedgerState) (chain : ChainSnapshot),
    R n (n.snapshotted E ledger chain)

namespace Filing

variable {E : Env} {R : Node → Node → Prop} [IsPreorder Node R] (hR : Filing E R) {n : Node}
include hR

/-! ## Parts -/

omit [IsPreorder Node R] in
theorem books : Books R where
  book hcore hrecords := hR.offRecord (Node.filed_of_core hcore hrecords)
  readClock _ := hR.offRecord rfl
  send n effect h := hR.offRecord <| n.filed_withEffect <| by
    cases effect with
    | write => cases h
    | _ => rfl

omit [IsPreorder Node R] in
theorem modify {f : Node → Node} (h : ∀ n, (f n).filed = n.filed) :
    Always R (Proc.modify f : NodeM Unit) := .modify fun n => hR.offRecord (h n)

omit [IsPreorder Node R] in
theorem emit {effect : Effect} (h : effect.ofRecords = false) :
    Always R (NodeM.emit effect) := .modify fun n => hR.offRecord (n.filed_withEffect h)

/-! ## Receipts -/

omit [IsPreorder Node R] in
theorem persistReceipt (receipt : RelayReceipt) : Always R (persistReceipt E receipt) := fun n => by
  obtain ⟨isNew, hrun⟩ := run_persistReceipt (E := E) (n := n) receipt
  unfold Moves
  rw [hrun]
  exact hR.receipt n receipt

theorem storeReceipt (receipt : RelayReceipt) : Always R (storeReceipt E receipt) :=
  (hR.books.validateReceipt receipt).attempt.bind fun
    | .error _ => .pure _
    | .ok _ => hR.persistReceipt receipt

theorem importCommitmentReceipts (receipts : List RelayReceipt) :
    Always R (importCommitmentReceipts E receipts) :=
  .forEach fun _ => (hR.persistReceipt _).thenPure

theorem maybeIssueReceipt (source destination : ValidatorId) (messageClass : MessageClass)
    (slot : Slot) (transcriptDigest byteHash : HashBytes) (sequenceNumber : Nat) :
    Always R (maybeIssueReceipt E source destination messageClass slot transcriptDigest byteHash
      sequenceNumber) :=
  .unlessM <| .bind (.ofExcept _) fun _ => .bind (hR.emit rfl) fun _ => .bind (.ofExcept _) fun _ =>
    (hR.storeReceipt _).bind fun _ => .whenM (hR.emit rfl)

/-! ## Service evidence -/

theorem insertServiceAttestation {a : ServiceAttestation} (hv2 : E.v2 = true)
    (hvalid : validateServiceAttestation E a = .ok ()) :
    Always R (insertServiceAttestation E a true) := fun n => Moves.read <| by
  simp only [if_true]
  split_ifs with _ hreplaces
  · exact Moves.pure _
  · exact hR.attested hv2 hvalid hreplaces
  · exact Moves.pure _

theorem importServiceAttestation (a : ServiceAttestation) :
    Always R (importServiceAttestation E a) := fun n => by
  unfold Entangrid.importServiceAttestation
  cases hv2 : E.v2 with
  | false => exact Moves.throw _
  | true => exact Moves.ofExcept_bind fun _ hvalid => hR.insertServiceAttestation hv2 hvalid n

theorem insertServiceAttestations {attestations : List ServiceAttestation} (hv2 : E.v2 = true)
    (hvalid : ∀ a ∈ attestations, validateServiceAttestation E a = .ok ()) :
    Always R (insertServiceAttestations E true attestations) := by
  induction attestations with
  | nil => exact .pure _
  | cons a rest ih =>
    obtain ⟨ha, hrest⟩ := List.forall_mem_cons.1 hvalid
    exact (hR.insertServiceAttestation hv2 ha).bind fun _ => (ih hrest).thenPure

theorem importServiceAggregate (g : ServiceAggregate) : Always R (importServiceAggregate E g) :=
  fun n => by
    unfold Entangrid.importServiceAggregate
    cases hv2 : E.v2 with
    | false => exact Moves.throw _
    | true =>
      refine Moves.ofExcept_bind fun _ hvalid => ?_
      obtain ⟨-, -, hvalid⟩ := except_bind_ok.1 hvalid
      refine Moves.bind (hR.insertServiceAttestations hv2 (forM_ok.1 hvalid) n) fun _ n' _ =>
        Moves.read ?_
      split
      · exact Moves.pure _
      · next canonical hbuilt =>
        obtain ⟨hsubject, hepoch⟩ := buildServiceAggregate_key hbuilt
        rw [← hsubject, ← hepoch] at hbuilt
        refine Moves.bind (Moves.read ?_) fun _ _ _ => Moves.pure _
        simp only [if_true]
        split_ifs
        · exact Moves.pure _
        · exact hR.aggregated hbuilt

theorem maybePublishServiceAggregate (subject : ValidatorId) (epoch : Epoch) :
    Always R (maybePublishServiceAggregate E subject epoch) :=
  .read fun _ => .ite (.pure _) <| by
    split
    · exact .pure _
    · exact (hR.importServiceAggregate _).bind fun _ => .ite
        (hR.books.refreshServiceScores.bind fun _ => .bind (hR.emit rfl) fun _ => .pure _) (.pure _)

theorem emitServiceAttestationFor (epoch : Epoch) (subject : ValidatorId) :
    Always R (emitServiceAttestationFor E epoch subject) := by
  have hpublish : Always R (Entangrid.maybePublishServiceAggregate E subject epoch >>= fun _ =>
      Pure.pure ()) := (hR.maybePublishServiceAggregate subject epoch).thenPure
  exact .read fun _ => .unlessM <| .bind (.ofExcept _) fun _ =>
    (hR.importServiceAttestation _).bind fun _ =>
      .ite (.bind (.forEach fun _ => hR.books.sendTo _ _) fun _ => hpublish) hpublish

theorem refreshRecentServiceAttestations (epoch : Epoch) :
    Always R (refreshRecentServiceAttestations E epoch) :=
  .unlessM <| .forEach fun e => .unlessM <| .forEach (hR.emitServiceAttestationFor e)

theorem handleServiceAttestation (a : ServiceAttestation) :
    Always R (handleServiceAttestation E a) :=
  (hR.importServiceAttestation a).attempt.bind fun
    | .error _ => .pure _
    | .ok _ => (hR.maybePublishServiceAggregate _ _).thenPure

theorem handleServiceAggregate (g : ServiceAggregate) : Always R (handleServiceAggregate E g) :=
  (hR.importServiceAggregate g).attempt.bind fun
    | .error _ => .pure _
    | .ok _ => hR.books.refreshServiceScores

/-! ## Votes, certificates and adoption -/

theorem storeProposalVote (vote : ProposalVote) : Always R (storeProposalVote E vote) := fun n => by
  have hdropped (conflicts : List ProposalVote) := hR.offRecord (n.filed_withoutVotes conflicts)
  apply storeResolved_moves
  · exact refl_of R n
  · exact fun conflicts _ => hdropped conflicts
  · intro conflicts _ _
    exact trans_of R (hdropped conflicts) (hR.offRecord (Node.filed_addVote _ vote))

theorem storeBufferedProposalVote (vote : ProposalVote) :
    Always R (storeBufferedProposalVote E vote) := fun n => by
  have hdropped (conflicts : List ProposalVote) := hR.offRecord (n.filed_withoutVotes conflicts)
  apply storeResolved_moves
  · exact refl_of R n
  · exact fun conflicts _ => hdropped conflicts
  · intro conflicts _ _
    exact trans_of R (hdropped conflicts) (hR.offRecord (Node.filed_addBufferedVote _ vote))

theorem storeCertifiedVotes (votes : List ProposalVote) : Always R (storeCertifiedVotes E votes) :=
  .forEach fun vote => .bind (hR.modify fun _ => rfl) fun _ => (hR.storeProposalVote vote).thenPure

theorem adoptCanonicalChain (chain : List Block) :
    Always R (adoptCanonicalChain E chain) := fun n => by
  cases hreplay : LedgerState.replayBlocks E.hashing E.crypto E.genesis chain with
  | error e =>
    unfold Entangrid.adoptCanonicalChain
    rw [hreplay]
    exact refl_of R n
  | ok ledger =>
    unfold Moves
    rw [run_adoptCanonicalChain hreplay]
    exact hR.adopted n ledger chain

theorem maybeAdoptCertifiedBranch (tipHash : HashBytes) :
    Always R (maybeAdoptCertifiedBranch E tipHash) := .read fun _ => by
  split
  · exact .pure _
  · exact (hR.adoptCanonicalChain _).thenPure

theorem maybeBuildQc (blockHash : HashBytes) : Always R (maybeBuildQc E blockHash) :=
  fun n => Moves.read <| by
    split
    · exact Moves.pure _
    · next hnone =>
      split
      · exact Moves.pure _
      · next qc hqc =>
        obtain rfl := assembledQc_blockHash hqc
        have hnew : n.hasQc qc.blockHash = false := by
          simpa [Node.hasQc, ← Std.ExtTreeMap.isSome_getElem?_eq_contains] using hnone
        split_ifs
        · exact Moves.throw _
        · exact trans_of R (hR.certified hnew) (hR.offRecord (Node.filed_built n qc))

section Cycle
variable {castVote : Block → NodeM Unit} (hcast : ∀ block, Always R (castVote block))
include hcast

theorem maybeAdoptBetterUncertifiedChildWith :
    Always R (maybeAdoptBetterUncertifiedChildWith E castVote) := .read fun _ => by
  split
  · exact .pure _
  · exact (hR.adoptCanonicalChain _).bind fun _ => (hcast _).thenPure

omit hR in
theorem maybeBroadcastLocalVoteForCurrentPreQcTipWith :
    Always R (maybeBroadcastLocalVoteForCurrentPreQcTipWith E castVote) :=
  .read fun _ => .unlessM <| by
    split
    · exact hcast _
    · exact .pure _

theorem maybeAdoptVoteSupportedBranchWith (tipHash : HashBytes) :
    Always R (maybeAdoptVoteSupportedBranchWith E castVote tipHash) := .read fun _ => by
  split
  · exact .pure _
  · exact (hR.adoptCanonicalChain _).bind fun _ =>
      (maybeBroadcastLocalVoteForCurrentPreQcTipWith hcast).thenPure

theorem maybeFinalizeQuorumCertificateWith (blockHash : HashBytes) :
    Always R (maybeFinalizeQuorumCertificateWith E castVote blockHash) :=
  .read fun _ => (hR.maybeBuildQc blockHash).bind fun
    | none => .pure _
    | some _ => (hR.maybeAdoptCertifiedBranch _).bind fun _ =>
      (hR.maybeAdoptBetterUncertifiedChildWith hcast).bind fun _ =>
        .ite (.bind (hR.emit rfl) fun _ => hR.books.announceCertifiedProgress.bind fun _ => .pure _)
          (.pure _)

theorem advanceAfterVoteWith (blockHash : HashBytes) :
    Always R (advanceAfterVoteWith E castVote blockHash) :=
  (hR.maybeFinalizeQuorumCertificateWith hcast blockHash).bind fun
    | some _ => .pure _
    | none => (hR.maybeAdoptVoteSupportedBranchWith hcast _).thenPure

theorem importProposalVoteWith (vote : ProposalVote) :
    Always R (importProposalVoteWith E castVote vote) := by
  refine .ite (.throw _) <| .bind (.ofExcept _) fun _ => .bind (.ofExcept _) fun _ =>
    .read fun _ => ?_
  split
  · exact hR.storeBufferedProposalVote vote
  · exact .ite (.pure _) <| .bind (.ofExcept _) fun _ => (hR.storeProposalVote vote).bind fun _ =>
      .ite ((hR.advanceAfterVoteWith hcast _).bind fun _ => .pure _) (.pure _)

theorem maybeBroadcastLocalProposalVoteWith (block : Block) :
    Always R (maybeBroadcastLocalProposalVoteWith E castVote block) :=
  .unlessM <| .bind (.ofExcept _) fun _ => .bind (hR.emit rfl) fun _ => .read fun _ => .unlessM <|
    (hR.importProposalVoteWith hcast _).attempt.bind fun
      | .ok _ => .whenM (hR.emit rfl)
      | .error _ => .ite (.pure _) (.throw _)

end Cycle

variable (fuel : Nat)

theorem castVote (block : Block) : Always R (maybeBroadcastLocalProposalVote E fuel block) := by
  induction fuel generalizing block with
  | zero => exact .outOfFuel
  | succ fuel ih => exact hR.maybeBroadcastLocalProposalVoteWith ih block

theorem importProposalVote (vote : ProposalVote) : Always R (importProposalVote E fuel vote) :=
  hR.importProposalVoteWith (hR.castVote fuel) vote

theorem maybeFinalizeQuorumCertificate (blockHash : HashBytes) :
    Always R (maybeFinalizeQuorumCertificate E fuel blockHash) :=
  hR.maybeFinalizeQuorumCertificateWith (hR.castVote fuel) blockHash

theorem maybeAdoptBetterUncertifiedChild :
    Always R (maybeAdoptBetterUncertifiedChildForCertifiedHead E fuel) :=
  hR.maybeAdoptBetterUncertifiedChildWith (hR.castVote fuel)

theorem importQuorumCertificate (qc : QuorumCertificate) :
    Always R (importQuorumCertificate E fuel qc) := fun n => by
  have hrest : Always R (do
      Proc.modify (·.pruneVotesNotExtendingCertifiedBlock qc.blockHash qc.blockNumber)
      let _ ← Entangrid.maybeAdoptCertifiedBranch E qc.blockHash
      let _ ← maybeAdoptBetterUncertifiedChildForCertifiedHead E fuel
      pure true) :=
    .bind (hR.modify fun _ => rfl) fun _ => (hR.maybeAdoptCertifiedBranch _).bind fun _ =>
      (hR.maybeAdoptBetterUncertifiedChild fuel).thenPure
  unfold Entangrid.importQuorumCertificate
  split_ifs
  · exact Moves.throw _
  refine Moves.read ?_
  split
  · exact Moves.throw _
  · refine Moves.ofExcept_bind fun _ _ => Moves.bind (hR.storeCertifiedVotes qc.votes n)
      fun _ n' _ => Moves.read ?_
    split_ifs with hnew
    · exact Moves.pure _
    · refine Moves.of_run_eq _ ?_ (hR.certified (by simpa using hnew)) (hrest _)
      rfl

theorem importBufferedProposalVotesForBlock (block : Block) :
    Always R (importBufferedProposalVotesForBlock E fuel block) := .read fun _ => by
  split
  · exact .pure _
  · exact .bind (hR.modify fun _ => rfl) fun _ =>
      .forEach fun vote => (hR.importProposalVote fuel vote).attempt.thenPure

theorem maybeBroadcastVoteForCompetingBlock (block : Block) :
    Always R (maybeBroadcastVoteForCompetingBlock E fuel block) :=
  .unlessM <| .read fun _ => .bind (.ofExcept _) fun _ => .whenM (hR.castVote fuel block)

theorem maybeAdoptPreferredCompetingBranch (block : Block) :
    Always R (maybeAdoptPreferredCompetingBranch E fuel block) :=
  .read fun _ => .ite (.pure _) <| .bind (.ofExcept _) fun
    | none => .pure _
    | some _ => .ite (.pure _) <| (hR.adoptCanonicalChain _).bind fun _ =>
      (maybeBroadcastLocalVoteForCurrentPreQcTipWith (hR.castVote fuel)).thenPure

/-! ## Accepting blocks -/

theorem acceptCompetingBlock (block : Block) : Always R (acceptCompetingBlock E fuel block) := by
  have hdecide : Always R (do
      Entangrid.maybeBroadcastVoteForCompetingBlock E fuel block
      let _ ← Entangrid.maybeFinalizeQuorumCertificate E fuel block.blockHash
      let adopted ← Entangrid.maybeAdoptPreferredCompetingBranch E fuel block
      let n ← Proc.get
      if (adopted || n.ledger.snapshot.tipHash == block.blockHash) = true then
        pure BlockAcceptance.accepted
      else pure BlockAcceptance.orphan) :=
    (hR.maybeBroadcastVoteForCompetingBlock fuel block).bind fun _ =>
      (hR.maybeFinalizeQuorumCertificate fuel _).bind fun _ =>
        (hR.maybeAdoptPreferredCompetingBranch fuel block).bind fun _ => .read fun _ =>
          .ite (.pure _) (.pure _)
  have hvotes := hR.importBufferedProposalVotesForBlock fuel block
  have hchild := hR.maybeAdoptBetterUncertifiedChild fuel
  refine .read fun n => .ite ?_
    (.bind (hR.modify fun _ => rfl) fun _ => .bind (hR.emit rfl) fun _ => ?_)
  all_goals
    exact hvotes.bind fun _ => .ite
      (hchild.bind fun _ => .read fun _ => .ite (.pure _) hdecide)
      (.read fun _ => .ite (.pure _) hdecide)

theorem supportPendingChild (block : Block) : Always R (supportPendingChild E fuel block) := by
  have hfinal : Always R (Entangrid.maybeFinalizeQuorumCertificate E fuel block.blockHash >>=
      fun _ =>
    Pure.pure ()) := (hR.maybeFinalizeQuorumCertificate fuel _).thenPure
  exact .read fun _ => .unlessM <| (hR.importBufferedProposalVotesForBlock fuel block).bind fun _ =>
    .read fun _ => .ite ((hR.castVote fuel block).bind fun _ => hfinal) hfinal

theorem acceptAboveCertifiedHead (block : Block) :
    Always R (acceptAboveCertifiedHead E fuel block) := by
  have hsupport : Always R (do
      Entangrid.supportPendingChild E fuel block
      let _ ← maybeAdoptBetterUncertifiedChildForCertifiedHead E fuel
      let n ← Proc.get
      if n.ledger.snapshot.tipHash = block.blockHash then pure BlockAcceptance.accepted
      else pure BlockAcceptance.orphan) :=
    (hR.supportPendingChild fuel block).bind fun _ =>
      (hR.maybeAdoptBetterUncertifiedChild fuel).bind fun _ =>
        .read fun _ => .ite (.pure _) (.pure _)
  exact .read fun _ => .ite (.pure _) <| .ite
    (.ite hsupport (.bind (hR.modify fun _ => rfl) fun _ => hsupport))
    (.ite (.pure _) (.bind (hR.modify fun _ => rfl) fun _ => .pure _))

theorem acceptExtension (block : Block) (ledger : LedgerState) :
    Always R (acceptExtension E fuel block ledger) :=
  .bind (hR.modify fun _ => rfl) fun _ => .bind (hR.emit rfl) fun _ => .bind (hR.emit rfl) fun _ =>
    (hR.importCommitmentReceipts _).bind fun _ =>
      (hR.importBufferedProposalVotesForBlock fuel block).bind fun _ =>
        (hR.maybeFinalizeQuorumCertificate fuel _).bind fun _ =>
          .bind (hR.modify fun _ => rfl) fun _ =>
          .bind (hR.emit rfl) fun _ => (hR.castVote fuel block).bind fun _ =>
            hR.books.maybePushTipProgress.attempt.thenPure

theorem acceptBlock (block : Block) (localProposal : Bool) :
    Always R (acceptBlock E fuel block localProposal) :=
  .read fun _ => .ite (.pure _) <| .bind (.ofExcept _) fun _ =>
    .ite (hR.acceptCompetingBlock fuel block) <| .bind (.ofExcept _) fun _ =>
      .ite (hR.acceptAboveCertifiedHead fuel block) (hR.acceptExtension fuel block _)

theorem tryPromoteOrphans (rounds : Nat) : Always R (tryPromoteOrphans E fuel rounds) := by
  induction rounds with
  | zero => exact .outOfFuel
  | succ rounds ih =>
    refine .read fun _ => ?_
    split
    · exact .pure _
    · refine .bind (.read fun _ => ?_) fun _ => ih
      split
      · exact .pure _
      · exact .bind (hR.emit rfl) fun _ => .bind (hR.modify fun _ => rfl) fun _ =>
          (hR.acceptBlock fuel _ false).attempt.thenPure

/-! ## Importing chains -/

theorem importVotesOfChain (votes : List ProposalVote) (applied : List Block) :
    Always R (importVotesOfChain E fuel votes applied) := by
  refine .bind (.forEach fun vote => (hR.importProposalVote fuel vote).attempt.thenPure) fun _ =>
    .bind (.forEach (hR.importBufferedProposalVotesForBlock fuel)) fun _ n => ?_
  exact hR.retained n applied

theorem applyChainSnapshot (chain : ChainSnapshot) :
    Always R (applyChainSnapshot E fuel chain) := fun n => Moves.ofExcept_bind fun ledger _ => by
  refine Moves.of_run_eq _ ?_ (hR.snapshotted n ledger chain)
    (hR.importVotesOfChain fuel chain.proposalVotes chain.blocks _)
  rfl

omit hR in
theorem slicePrefix (blocks : List Block) (len : Nat) :
    Always R (Entangrid.slicePrefix blocks len) := .ite (.pure _) .panic

theorem applyChainSegment (chain : ChainSegment) : Always R (applyChainSegment E fuel chain) := by
  have hbase : Always R (syncRepairBaseForSegment E chain) := .read fun n => by
    split
    · exact .pure _
    · exact .ite
        ((Filing.slicePrefix _ _).bind fun _ => .bind (.ofExcept _) fun _ => .pure _) (.pure _)
  refine hbase.bind fun _ => .bind (.ofExcept _) fun _ => .bind (.ofExcept _) fun _ =>
    .bind (.ofExcept _) fun _ => .bind (.ofExcept _) fun _ => .bind (.ofExcept _) fun _ => ?_
  exact .bind (hR.modify fun _ => rfl) fun _ => .bind (hR.modify fun _ => rfl) fun _ =>
    .bind (hR.emit rfl) fun _ => .bind (hR.emit rfl) fun _ =>
    .bind (hR.emit rfl) fun _ => .bind (.forEach fun _ => (hR.storeReceipt _).thenPure) fun _ =>
      hR.importVotesOfChain fuel _ _

omit [IsPreorder Node R] in
theorem recordStatus {f : Node → Node}
    (h : ∀ n, ∃ v status, f n = n.recordPeerSyncStatusWithSlot v status) :
    Always R (Proc.modify f : NodeM Unit) := hR.modify fun n => by
  obtain ⟨v, status, heq⟩ := h n
  obtain ⟨statuses, hrecord, -⟩ := recordPeerSyncStatusWithSlot_eq (n := n) v status
  rw [heq, hrecord]
  rfl

omit [IsPreorder Node R] in
theorem recordPeerSyncStatusWithSlot (v : ValidatorId) (status : PeerSyncStatus) :
    Always R (Proc.modify (·.recordPeerSyncStatusWithSlot v status) : NodeM Unit) :=
  hR.recordStatus fun _ => ⟨_, _, rfl⟩

theorem applyCertifiedSuffix (r : CertifiedSync) : Always R (applyCertifiedSuffix E fuel r) := by
  have hrecord (height : Nat) :
      Always R (Proc.modify (recordCertifiedResponder r height) : NodeM Unit) :=
    hR.recordStatus fun _ => ⟨_, _, rfl⟩
  have hqcs : Always R (Proc.forEach r.qcs fun qc => do
      let _ ← Entangrid.importQuorumCertificate E fuel qc
      Pure.pure ()) := .forEach fun qc => (hR.importQuorumCertificate fuel qc).thenPure
  have haggregates : Always R (Proc.forEach r.serviceAggregates fun g => do
      let _ ← Entangrid.importServiceAggregate E g
      Pure.pure ()) := .forEach fun g => (hR.importServiceAggregate g).thenPure
  refine .read fun n => (Filing.slicePrefix _ _).bind fun _ => .bind (.ofExcept _) fun ledger =>
    .bind (.ofExcept _) fun _ => (hrecord _).bind fun _ => .ite (.pure _) ?_
  exact (hR.adoptCanonicalChain _).bind fun _ => hqcs.bind fun _ => haggregates.bind fun _ =>
    hR.books.refreshServiceScores.bind fun _ => .bind (hR.modify fun _ => rfl) fun _ => .pure _

theorem importCertifiedSyncResponse (response : ChunkedSyncResponse) :
    Always R (importCertifiedSyncResponse E fuel response) := by
  cases response with
  | unavailable => exact .pure _
  | certified r =>
    exact .ite (.pure _) <| .ite (.throw _) <| .read fun _ => .bind (.ofExcept _) fun _ =>
      .ite (.pure _) <|
        .ite (.bind (hR.recordStatus fun _ => ⟨_, _, rfl⟩) fun _ => .pure _)
          (hR.applyCertifiedSuffix fuel _)

/-! ## Proposing and slot ticks -/

theorem proposeNewBlock (slot : Slot) (epoch : Epoch) :
    Always R (proposeNewBlock E fuel slot epoch) :=
  .read fun _ => hR.books.now.bind fun _ => .bind (.ofExcept _) fun _ =>
    .bind (hR.emit rfl) fun _ =>
    (hR.acceptBlock fuel _ true).bind fun _ => .read fun _ => .ite
      ((hR.tryPromoteOrphans fuel fuel).bind fun _ => hR.emit rfl) (.whenM (hR.emit rfl))

theorem maybeProposeBlock (slot : Slot) (epoch : Epoch) :
    Always R (maybeProposeBlock E fuel slot epoch) :=
  .read fun _ => .unlessM <| hR.books.startupSyncBlocksProposal.bind fun _ => .unlessM <|
    .read fun _ => .unlessM <| .bind (hR.modify fun _ => rfl) fun _ => by
      split
      · exact (hR.castVote fuel _).bind fun _ => hR.emit rfl
      · exact hR.proposeNewBlock fuel slot epoch

theorem enterEpoch (epoch : Epoch) (isLiveSlot : Bool) :
    Always R (enterEpoch E epoch isLiveSlot) := by
  have hrefresh : Always R (if epoch > 2 then Entangrid.refreshRecentServiceAttestations E epoch
      else Pure.pure ()) := .whenM (hR.refreshRecentServiceAttestations epoch)
  exact .read fun _ => .unlessM <| .bind (hR.modify fun _ => rfl) fun _ => .whenM <| .ite
    ((hR.books.requestReceiptReconciliation _).bind fun _ => hrefresh) hrefresh

theorem processSlot (currentSlot slot : Slot) :
    Always R (processSlot E fuel currentSlot slot) := by
  have hpropose : Always R (do
      Entangrid.maybeProposeBlock E fuel slot (E.consensus.epochForSlot slot)
      Entangrid.tryPromoteOrphans E fuel fuel) :=
    (hR.maybeProposeBlock fuel slot _).bind fun _ => hR.tryPromoteOrphans fuel fuel
  have hrepair : Always R (do
      if E.v2 = true then
        let _ ← maybeRepairStalePendingCertifiedChild E slot
        Pure.pure ()
      else Pure.pure ()
      Entangrid.maybeProposeBlock E fuel slot (E.consensus.epochForSlot slot)
      Entangrid.tryPromoteOrphans E fuel fuel) :=
    .ite ((hR.books.maybeRepairStalePendingCertifiedChild slot).bind fun _ => hpropose) hpropose
  exact .bind (hR.modify fun _ => rfl) fun _ => hR.books.refreshServiceScores.bind fun _ =>
    (hR.enterEpoch _ _).bind fun _ => .whenM <| (hR.books.broadcastHeartbeat _ _).bind fun _ =>
      .read fun _ => .ite ((hR.books.maybeBroadcastRecoverySyncStatus slot).bind fun _ =>
        (hR.books.maybeRequestRecoverySync slot).bind fun _ => hrepair) hrepair

theorem processSlotTick : Always R (processSlotTick E fuel) :=
  hR.books.now.bind fun _ => .read fun _ => .unlessM <| .forEach (hR.processSlot fuel _)

/-! ## Messages -/

theorem handleTransaction (tx : SignedTransaction) (v : ValidatorId) (localIngress : Bool) :
    Always R (handleTransaction E tx v localIngress) :=
  .read fun _ => .unlessM <| .bind (.ofExcept _) fun _ => .bind (hR.modify fun _ => rfl) fun _ =>
    .bind (hR.emit rfl) fun _ => hR.books.processedSlot.bind fun _ =>
      (hR.maybeIssueReceipt _ _ _ _ _ _ _).bind fun _ => .whenM (hR.emit rfl)

section Messages
variable (v : ValidatorId)

theorem handleBlockProposal (block : Block) : Always R (handleBlockProposal E fuel v block) :=
  (hR.recordPeerSyncStatusWithSlot _ _).bind fun _ =>
    (hR.maybeIssueReceipt _ _ _ _ _ _ _).bind fun _ =>
      (hR.acceptBlock fuel block false).attempt.bind fun
        | .ok .accepted => (hR.tryPromoteOrphans fuel fuel).bind fun _ => hR.emit rfl
        | .ok .orphan => .read fun _ => .ite (hR.books.requestLegacySyncFrom v).attempt.thenPure <|
          .bind (hR.modify fun _ => rfl) fun _ =>
            (hR.books.pushBestSyncTo v _ _).attempt.thenPure.bind fun _ =>
            (hR.books.requestSyncFrom v).attempt.thenPure
        | .ok .duplicate => .pure _
        | .error _ => .pure _

theorem handleQuorumCertificate (qc : QuorumCertificate) :
    Always R (handleQuorumCertificate E fuel v qc) :=
  .read fun _ => .ite
    ((hR.recordPeerSyncStatusWithSlot _ _).bind fun _ =>
      (hR.books.requestSyncFrom v).attempt.thenPure)
    ((hR.importQuorumCertificate fuel qc).attempt.bind fun
      | .ok true => hR.books.announceCertifiedProgress
      | .ok false => .pure _
      | .error _ => .pure _)

theorem handleSyncStatus (status : PeerSyncStatus) : Always R (handleSyncStatus E v status) :=
  (hR.recordPeerSyncStatusWithSlot _ _).bind fun _ => .read fun _ =>
    .ite (hR.books.requestSyncFrom v).attempt.thenPure
      (.whenM (hR.books.pushBestSyncTo v _ _).attempt.thenPure)

theorem handleSyncRequest (height : Nat) (tip : HashBytes) :
    Always R (handleSyncRequest E v height tip) := by
  have hserved : Always R (recordSyncRequestServed E v height tip) :=
    hR.books.now.bind fun _ => hR.modify fun _ => rfl
  have hserve (throttled : Bool) : Always R (if throttled = true then Pure.pure ()
      else if isForceFullSnapshotHint height tip = true then
        if (E.config.peers.any (·.validatorId == v)) = true then sendFullSnapshotTo E v
        else Proc.throw (.unknownPeer v)
      else do
        recordSyncRequestServed E v height tip
        if E.v2 = true then pushBestSyncTo E v height tip else sendBestSyncTo E v height tip) :=
    .unlessM <| .ite (.ite (hR.books.sendFullSnapshotTo v) (.throw _)) <|
      hserved.bind fun _ =>
        .ite (hR.books.pushBestSyncTo v height tip) (hR.books.sendBestSyncTo v height tip)
  exact .bind (hR.recordStatus fun _ => ⟨_, _, rfl⟩) fun _ =>
    .ite (.bind (.pure _) hserve) (.bind (hR.books.syncRequestIsThrottled v height tip) hserve)

theorem afterSyncApplied : Always R (afterSyncApplied E fuel v) :=
  (hR.tryPromoteOrphans fuel fuel).bind fun _ => .bind (hR.modify fun _ => rfl) fun _ =>
    .read fun _ => .ite
    ((hR.books.requestSyncFrom v).bind fun _ => hR.books.maybePushTipProgress.attempt.thenPure)
    hR.books.maybePushTipProgress.attempt.thenPure

theorem handleSyncResponse (chain : ChainSnapshot) :
    Always R (handleSyncResponse E fuel v chain) :=
  (hR.recordPeerSyncStatusWithSlot _ _).bind fun _ => .read fun _ => .ite
    ((hR.applyChainSnapshot fuel chain).attempt.bind fun
      | .ok _ => hR.afterSyncApplied fuel v
      | .error _ => .pure _)
    (.whenM (hR.books.pushBestSyncTo v _ _).attempt.thenPure)

theorem handleSyncBlocks (chain : ChainSegment) : Always R (handleSyncBlocks E fuel v chain) :=
  (hR.recordPeerSyncStatusWithSlot _ _).bind fun _ => .read fun _ => .unlessM <|
    (hR.applyChainSegment fuel chain).attempt.bind fun
      | .ok _ => hR.afterSyncApplied fuel v
      | .error _ => .bind (hR.modify fun _ => rfl) fun _ =>
          (hR.books.requestSyncFrom v).attempt.thenPure

theorem handleCertifiedSyncResponse (response : ChunkedSyncResponse) :
    Always R (handleCertifiedSyncResponse E fuel v response) :=
  (hR.importCertifiedSyncResponse fuel response).attempt.bind fun
    | .ok .applied => (hR.tryPromoteOrphans fuel fuel).bind fun _ =>
      hR.books.announceCertifiedProgress
    | .ok (.ignored reason) => (hR.books.followUpIgnored v reason).attempt.thenPure
    | .error _ => .bind (hR.modify fun _ => rfl) fun _ =>
        (hR.books.requestBestExcluding _).thenPure.attempt.thenPure

theorem dispatchMessage (payload : ProtocolMessage) :
    Always R (dispatchMessage E fuel v payload) := by
  cases payload with
  | transactionBroadcast tx => exact (hR.handleTransaction tx v false).attempt.thenPure
  | blockProposal block => exact hR.handleBlockProposal fuel v block
  | proposalVote vote =>
    exact .whenM (hR.importProposalVote fuel vote).thenPure.attempt.thenPure
  | quorumCertificate qc => exact .whenM (hR.handleQuorumCertificate fuel v qc)
  | syncStatus v _ _ _ _ _ _ => exact hR.handleSyncStatus v _
  | syncRequest v height tip => exact hR.handleSyncRequest v height tip
  | syncResponse v chain => exact hR.handleSyncResponse fuel v chain
  | syncBlocks v chain => exact hR.handleSyncBlocks fuel v chain
  | certifiedSyncRequest request => exact .whenM (hR.books.handleCertifiedSyncRequest request)
  | certifiedSyncResponse response => exact .whenM (hR.handleCertifiedSyncResponse fuel v response)
  | heartbeatPulse pulse => exact hR.maybeIssueReceipt _ _ _ _ _ _ _
  | relayReceipt receipt => exact (hR.storeReceipt receipt).bind fun _ => .whenM (hR.emit rfl)
  | serviceAttestation a => exact .whenM (hR.handleServiceAttestation a)
  | serviceAggregate g => exact .whenM (hR.handleServiceAggregate g)
  | receiptFetch v epoch w => exact hR.books.handleReceiptFetch v epoch w
  | receiptResponse => exact .forEach fun _ => (hR.storeReceipt _).thenPure

end Messages

/-- **What allows every filing, every event keeps.** -/
theorem handleEvent (event : Event) : Always R (handleEvent E fuel event) := by
  cases event with
  | slotTick => exact hR.processSlotTick fuel
  | inboxTick files =>
    exact .bind (.ofExcept _) fun _ => .forEach fun _ =>
      (hR.handleTransaction _ _ true).attempt.thenPure
  | metricsTick => exact hR.books.refreshServiceScores
  | syncTick => exact .whenM hR.books.runSyncMaintenance
  | received v payload =>
    exact .bind (hR.modify fun _ => rfl) fun _ =>
      (hR.books.allowPeerMessage v payload).bind fun _ =>
      .whenM (hR.dispatchMessage fuel v payload)
  | sessionObserved peer outbound serviceAccountable =>
    exact .whenM (hR.books.handleSessionObserved peer)
  | sessionFailed peer outbound serviceAccountable faultInjected =>
    refine .bind (hR.modify fun _ => rfl) fun _ => ?_
    cases peer with
    | none => exact .pure _
    | some peer =>
      exact .whenM (hR.books.currentEpoch.bind fun _ =>
        hR.books.modify fun _ => ⟨recordFailedSession_core, recordFailedSession_records⟩)
  | inboundSessionDropped => exact .pure _

end Filing

end Entangrid
