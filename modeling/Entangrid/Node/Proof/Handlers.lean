import Entangrid.Node.Proof.Moves

/-!
# Handlers as chains of steps

Block acceptance, chain imports and the event handlers.

* `Handles`: a relation that allows what appends no block, and all that is done to accept one. The
  handlers after block acceptance are chains of it, whether or not acceptance is cut into steps.
* `handleEvent_moves`: the handling of an event whose blocks, votes and chains are allowed is a
  chain of steps.
* `Reachable.invariant`: what holds of fresh nodes and is kept by every step holds of every
  reachable state.
-/

namespace Entangrid

open Proc (Always Moves)

variable {E : Env} {A : Source} {n n' : Node} (fuel : Nat)

/-! ## Accepting blocks -/

section Accept
variable {block : Block}

theorem acceptCompetingBlock_moves (hnew : n.knownBlock block.blockHash = none)
    (hvalid : validateReceivedBlock E block = .ok ()) (hsource : A.Block n block) :
    Moves (Acts E A) (acceptCompetingBlock E fuel block) n := Moves.read <| by
  have horphan : hasBlock n.orphanBlocks block.blockHash = false :=
    hasBlock_eq_false.2 fun b hb =>
      Node.knownBlock_eq_none.1 hnew b (Node.mem_knownBlocks.2 (.inr (.inr hb)))
  simp only [horphan, Bool.false_eq_true, if_false]
  refine Acts.modify_bind (fun _ => .addOrphan block hnew hvalid hsource) <|
    Acts.bind (Stepwise.store _ rfl).moves fun _ n₁ _ h₁ =>
      Acts.bind (importBufferedProposalVotesForBlock_stepwise fuel block n₁) fun _ n₂ _ h₂ => ?_
  have hrest : ∀ n₃, Steps E A n₂ n₃ → Moves (Acts E A) (do
      maybeBroadcastVoteForCompetingBlock E fuel block
      let _ ← maybeFinalizeQuorumCertificate E fuel block.blockHash
      let adopted ← maybeAdoptPreferredCompetingBranch E fuel block
      let n ← Proc.get
      if (adopted || n.ledger.snapshot.tipHash == block.blockHash) = true then
        pure BlockAcceptance.accepted
      else pure BlockAcceptance.orphan) n₃ := fun n₃ h₃ => by
    refine Acts.bind (maybeBroadcastVoteForCompetingBlock_stepwise fuel block n₃)
      fun _ n₄ _ h₄ => Acts.bind (maybeFinalizeQuorumCertificate_stepwise fuel _ n₄)
      fun _ n₅ _ h₅ => ?_
    have hsteps := (((h₁.trans h₂).trans h₃).trans h₄).trans h₅
    have hsource' : A.Block (n.addOrphan block) block := ⟨hsource.takes, hsource.source⟩
    exact Acts.bind (maybeAdoptPreferredCompetingBranch_moves fuel hvalid
        (hsource'.mono (Steps.effects_suffix hsteps)))
      fun _ n₆ _ _ => (Stepwise.read fun _ => .ite (.pure _) (.pure _)) n₆
  split_ifs
  · refine Acts.bind (maybeAdoptBetterUncertifiedChild_stepwise fuel n₂) fun _ n₃ _ h₃ =>
      Moves.read ?_
    split_ifs
    · exact Moves.pure _
    · exact hrest n₃ h₃
  · refine Moves.read ?_
    split_ifs
    · exact Moves.pure _
    · exact hrest n₂ .refl

theorem supportPendingChild_stepwise (block : Block) :
    Stepwise E A (supportPendingChild E fuel block) := by
  have hfinal : Stepwise E A (maybeFinalizeQuorumCertificate E fuel block.blockHash >>= fun _ =>
    Pure.pure ()) := (maybeFinalizeQuorumCertificate_stepwise fuel _).thenPure
  exact .read fun _ => .unlessM <|
    (importBufferedProposalVotesForBlock_stepwise fuel block).bind fun _ => .read fun _ =>
      .ite ((castVote_stepwise fuel block).bind fun _ => hfinal) hfinal

theorem acceptAboveCertifiedHead_moves (hnew : n.knownBlock block.blockHash = none)
    (hvalid : validateReceivedBlock E block = .ok ()) (hsource : A.Block n block) :
    Moves (Acts E A) (acceptAboveCertifiedHead E fuel block) n := Moves.read <| by
  split_ifs with _ hchild _ _
  · exact Moves.pure _
  · exact (supportPendingChild_stepwise fuel block).bind (fun _ =>
      (maybeAdoptBetterUncertifiedChild_stepwise fuel).bind fun _ => .read fun _ =>
        .ite (.pure _) (.pure _)) n
  · exact Acts.modify_bind (fun _ => .addPending block hnew hvalid hsource hchild) <|
      (supportPendingChild_stepwise fuel block).bind (fun _ =>
        (maybeAdoptBetterUncertifiedChild_stepwise fuel).bind fun _ => .read fun _ =>
          .ite (.pure _) (.pure _)) _
  · exact Moves.pure _
  · exact Acts.modify_bind (fun _ => .addOrphan block hnew hvalid hsource) (Moves.pure _)

theorem acceptExtension_moves {ledger : LedgerState} (hnew : n.knownBlock block.blockHash = none)
    (hvalid : validateReceivedBlock E block = .ok ()) (hsource : A.Block n block)
    (hparent : block.header.parentHash = n.ledger.snapshot.tipHash)
    (happly : n.ledger.applyBlock E.hashing E.crypto block = .ok ledger)
    (hhead : n.certifiedHeadOnlyActive E = false ∨ n.hasQc block.blockHash = true)
    (happends : A.appends) : Moves (Acts E A) (acceptExtension E fuel block ledger) n := by
  refine Acts.of_run_eq (n.extended ledger block) (do
    importCommitmentReceipts E block.commitmentReceipts
    importBufferedProposalVotesForBlock E fuel block
    let _ ← maybeFinalizeQuorumCertificate E fuel block.blockHash
    Proc.modify (·.dropFromMempool block.transactions)
    NodeM.emit (.mempoolCleared (block.transactions.map (·.txHash)))
    maybeBroadcastLocalProposalVote E fuel block
    let _ ← Proc.attempt (maybePushTipProgressToStalePeers E)
    pure .accepted) rfl
    (fun _ => .single (.extend block hnew hvalid hsource hparent happly hhead happends)) ?_
  have hmem : block ∈ (n.extended ledger block).blocks := List.mem_append_right _ (by simp)
  refine Acts.of_run_eq _ _ (Proc.run_bind_of_ok (run_importCommitmentReceipts _))
    (fun _ => .single (.commitmentReceipts block hmem)) ?_
  refine Acts.assume fun hc => Moves.bind (importBufferedProposalVotesForBlock_stepwise fuel block _)
    fun _ n₁ hrun₁ => Moves.bind (maybeFinalizeQuorumCertificate_stepwise fuel _ n₁)
      fun _ n₂ hrun₂ => ?_
  -- neither admits a transaction, so the append is the last thing the mempool could know of
  have hc' : A.closed.Covers ((n.extended ledger block).withCommitmentReceipts E
    block.commitmentReceipts) := hc.closed
  have hsteps₁ := Moves.ok (importBufferedProposalVotesForBlock_stepwise fuel block _) hrun₁ hc'
  have hsteps₂ := Moves.ok (maybeFinalizeQuorumCertificate_stepwise fuel _ n₁) hrun₂
    (hsteps₁.covers hc')
  obtain ⟨new, heq, hnew⟩ : (n.extended ledger block).AdmitsNothing n₂ :=
    (Node.OnlyWrites.withCommitmentReceipts _).admitsNothing.trans
      ((Steps.admitsNothing hsteps₁ rfl).trans (Steps.admitsNothing hsteps₂ rfl))
  refine Acts.of_run_eq ((n₂.dropFromMempool block.transactions).withEffect
    (.mempoolCleared (block.transactions.map (·.txHash)))) (do
      maybeBroadcastLocalProposalVote E fuel block
      let _ ← Proc.attempt (maybePushTipProgressToStalePeers E)
      pure .accepted) rfl
    (fun _ => .single (.drop block (new ++ [.write (.writeSnapshot ledger.snapshot)]) _
      (by rw [heq, List.append_assoc]; rfl) (by simpa using hnew))) <|
    ((castVote_stepwise fuel block).bind fun _ => Acts.books.maybePushTipProgress.attempt.thenPure) _

/-- A block is accepted if it is known, or refused, or taken in beside the tip or above a certified head,
or it extends the chain. -/
theorem acceptBlock_cases {R : Node → Node → Prop} [IsPreorder Node R] (localProposal : Bool)
    (hcompeting : n.knownBlock block.blockHash = none → validateReceivedBlock E block = .ok () →
      Moves R (acceptCompetingBlock E fuel block) n)
    (habove : n.knownBlock block.blockHash = none → validateReceivedBlock E block = .ok () →
      Moves R (acceptAboveCertifiedHead E fuel block) n)
    (hextension : ∀ ledger, n.knownBlock block.blockHash = none →
      validateReceivedBlock E block = .ok () → block.header.parentHash = n.ledger.snapshot.tipHash →
      n.ledger.applyBlock E.hashing E.crypto block = .ok ledger →
      n.certifiedHeadOnlyActive E = false ∨ n.hasQc block.blockHash = true →
      Moves R (acceptExtension E fuel block ledger) n) :
    Moves R (acceptBlock E fuel block localProposal) n := Moves.read <| by
  by_cases hknown : (n.knownBlock block.blockHash).isSome
  · rw [if_pos hknown]
    exact Moves.pure _
  have hnew : n.knownBlock block.blockHash = none := by simpa using hknown
  rw [if_neg hknown]
  refine Moves.ofExcept_bind fun _ hvalid => ?_
  by_cases hparent : block.header.parentHash ≠ n.ledger.snapshot.tipHash
  · rw [if_pos hparent]
    exact hcompeting hnew hvalid
  rw [if_neg hparent]
  refine Moves.ofExcept_bind fun ledger hledger => ?_
  split_ifs with hactive
  · exact habove hnew hvalid
  · obtain ⟨-, -, happly⟩ := except_bind_ok.1 hledger
    refine hextension ledger hnew hvalid (by simpa using hparent) happly ?_
    simp only [Bool.and_eq_true, Bool.not_eq_true', not_and, Bool.not_eq_false] at hactive
    cases hh : n.certifiedHeadOnlyActive E with
    | false => exact .inl rfl
    | true => exact .inr (hactive hh)

theorem acceptBlock_moves (localProposal : Bool) (happends : A.appends) (hsource : A.Block n block) :
    Moves (Acts E A) (acceptBlock E fuel block localProposal) n := by
  apply acceptBlock_cases
  · exact fun hnew hvalid => acceptCompetingBlock_moves fuel hnew hvalid hsource
  · exact fun hnew hvalid => acceptAboveCertifiedHead_moves fuel hnew hvalid hsource
  · intro ledger hnew hvalid hparent happly hhead
    exact acceptExtension_moves fuel hnew hvalid hsource hparent happly hhead happends

end Accept

/-! ## Importing chains -/

section Import

theorem importVotes_stepwise {votes : List ProposalVote} (hsource : ∀ vote ∈ votes, vote ∈ A.votes) :
    Stepwise E A (Proc.forEach votes fun vote => do
      let _ ← Proc.attempt (importProposalVote E fuel vote)
      pure ()) :=
  fun _ => Moves.forEach fun vote hvote _ _ =>
    Acts.bind (importProposalVote_moves fuel (.inl (hsource vote hvote))).attempt
      fun _ _ _ _ => Moves.pure _

/-- The votes of a chain are imported where its blocks are all the node has. -/
theorem importVotesOfChain_moves {votes : List ProposalVote} {applied : List Block}
    (hsource : ∀ vote ∈ votes, vote ∈ A.votes) (hknown : ∀ block ∈ n.knownBlocks, block ∈ applied) :
    Moves (Acts E A) (importVotesOfChain E fuel votes applied) n := by
  refine Acts.assume fun hc => Moves.bind (importVotes_stepwise fuel hsource n) fun _ n₁ hrun₁ =>
    Moves.bind (Stepwise.forEach (importBufferedProposalVotesForBlock_stepwise fuel) n₁)
      fun _ n₂ hrun₂ => ?_
  -- no block comes in with the votes
  have hsource' : ∀ vote ∈ votes, vote ∈ A.closed.votes := hsource
  have hsteps₁ : Steps E A.closed n n₁ :=
    Moves.ok (importVotes_stepwise fuel hsource' n) hrun₁ hc.closed
  have hsteps₂ : Steps E A.closed n₁ n₂ :=
    Moves.ok (Stepwise.forEach (importBufferedProposalVotesForBlock_stepwise fuel) n₁) hrun₂
      (hsteps₁.covers hc.closed)
  refine Acts.bind (Acts.modify fun _ => .retainEvidence applied fun block hb => ?_)
    fun _ n₃ _ _ => persistQuorumCertificates_stepwise n₃
  exact hknown block (hsteps₁.knownBlocks id (hsteps₂.knownBlocks id hb))

theorem applyChainSnapshot_moves {chain : ChainSnapshot} (hoffered : chain ∈ A.snapshots n.core)
    (hblocks : A.Carries chain.blocks)
    (hvotes : ∀ vote ∈ chain.proposalVotes, vote ∈ A.votes)
    (hadopt : shouldAdoptChainSnapshot E n n.ledger.snapshot chain = true) :
    Moves (Acts E A) (applyChainSnapshot E fuel chain) n := by
  refine Moves.ofExcept_bind fun ledger hvalid =>
    Acts.of_run_eq (n.snapshotted E ledger chain)
      (importVotesOfChain E fuel chain.proposalVotes chain.blocks) rfl
      (fun _ => .single (.applySnapshot hoffered hblocks hvalid hadopt)) ?_
  refine importVotesOfChain_moves fuel hvotes fun block hb => ?_
  have hb : block ∈ (n.withSnapshot ledger chain).knownBlocks := hb
  simpa [Node.mem_knownBlocks, Node.withSnapshot] using hb

theorem slicePrefix_moves {blocks : List Block} {len : Nat} {α : Type}
    {f : List Block → NodeM α}
    (h : len ≤ blocks.length → Moves (Acts E A) (f (blocks.take len)) n) :
    Moves (Acts E A) (slicePrefix blocks len >>= f) n := by
  unfold slicePrefix
  split_ifs with hlen
  · exact h hlen
  · exact trivial

/-- The base of a segment is the chain, or the chain up to the highest certificate. -/
theorem syncRepairBaseForSegment_run {chain : ChainSegment} {base : List Block}
    {snapshot : StateSnapshot} {s : Node}
    (h : (syncRepairBaseForSegment E chain).run n = .ok (base, snapshot) s) :
    s = n ∧ SegmentBase E n base snapshot.tipHash := by
  unfold syncRepairBaseForSegment at h
  rw [Proc.run_get_bind] at h
  have hwhole : (Pure.pure (n.blocks, n.ledger.snapshot) : NodeM _).run n = .ok (base, snapshot) s →
      s = n ∧ SegmentBase E n base snapshot.tipHash := by
    intro h
    simp only [Proc.run_pure, Out.ok.injEq, Prod.mk.injEq] at h
    obtain ⟨⟨rfl, rfl⟩, rfl⟩ := h
    exact ⟨rfl, .whole⟩
  split at h
  · exact hwhole h
  · next qc hqc =>
    have hqc' : n.highestLocalQc = some qc := by
      split_ifs at hqc
      exact hqc
    split_ifs at h with hbase
    · unfold slicePrefix at h
      split_ifs at h with hlen
      · rw [Proc.run_bind_of_ok (Proc.run_pure _ _)] at h
        obtain ⟨ledger, s₁, hreplay, h⟩ := Proc.run_bind_eq_ok h
        cases hledger : LedgerState.replayBlocks E.hashing E.crypto E.genesis
            (n.blocks.take qc.blockNumber) with
        | error e =>
          rw [hledger] at hreplay
          cases hreplay
        | ok ledger' =>
          rw [hledger] at hreplay
          cases hreplay
          simp only [Proc.run_pure, Out.ok.injEq, Prod.mk.injEq] at h
          obtain ⟨⟨rfl, rfl⟩, rfl⟩ := h
          exact ⟨rfl, .certified hqc' hlen hledger⟩
      · cases h
    · exact hwhole h

theorem syncRepairBaseForSegment_stepwise (chain : ChainSegment) :
    Stepwise E A (syncRepairBaseForSegment E chain) := .read fun n => by
  split
  · exact .pure _
  · refine .ite (fun s => slicePrefix_moves fun _ => ?_) (.pure _)
    exact (Stepwise.bind (.check _) fun _ => .pure _) s

theorem alignChainSegment_blocks {localBlocks : List Block} {snapshot : StateSnapshot}
    {chain aligned : ChainSegment}
    (h : alignChainSegmentToLocalChain localBlocks snapshot chain = .ok aligned) :
    aligned.blocks <:+ chain.blocks ∧ aligned.proposalVotes = chain.proposalVotes := by
  have htail : ∀ tip : HashBytes, (do
      rejectIf (tip != chain.baseTipHash) .segmentTipMismatch
      if chain.baseHeight = snapshot.height then do
        rejectIf (chain.baseTipHash != snapshot.tipHash) .segmentTipMismatch
        Except.ok chain
      else do
        let overlap := snapshot.height - chain.baseHeight
        rejectIf (overlap > chain.blocks.length) .segmentMissingOverlap
        checkOverlap localBlocks chain.baseHeight (chain.blocks.take overlap)
        Except.ok { chain with
          baseHeight := snapshot.height
          baseTipHash := snapshot.tipHash
          blocks := chain.blocks.drop overlap }) = .ok aligned →
      aligned.blocks <:+ chain.blocks ∧ aligned.proposalVotes = chain.proposalVotes := by
    intro tip h
    obtain ⟨-, -, h⟩ := except_bind_ok.1 h
    split_ifs at h
    · obtain ⟨-, -, h⟩ := except_bind_ok.1 h
      cases h
      exact ⟨List.suffix_refl _, rfl⟩
    · simp only [except_bind_ok] at h
      obtain ⟨-, -, -, -, h⟩ := h
      cases h
      exact ⟨List.drop_suffix _ _, rfl⟩
  unfold alignChainSegmentToLocalChain at h
  obtain ⟨-, -, h⟩ := except_bind_ok.1 h
  dsimp only at h
  by_cases hzero : chain.baseHeight = 0
  · rw [if_pos hzero] at h
    exact htail _ h
  · rw [if_neg hzero] at h
    cases hblock : localBlocks[chain.baseHeight - 1]? with
    | none =>
      rw [hblock] at h
      cases h
    | some block =>
      rw [hblock] at h
      exact htail _ h

theorem applyChainSegment_stepwise {chain : ChainSegment} (hblocks : A.Carries chain.blocks)
    (hvotes : ∀ vote ∈ chain.proposalVotes, vote ∈ A.votes) :
    Stepwise E A (applyChainSegment E fuel chain) := fun n => by
  refine Moves.bind (syncRepairBaseForSegment_stepwise chain n) fun ⟨base, snapshot⟩ s hrun => ?_
  obtain ⟨rfl, hbase⟩ := syncRepairBaseForSegment_run hrun
  refine Moves.ofExcept_bind fun aligned haligned => Moves.ofExcept_bind fun _ _ =>
    Moves.ofExcept_bind fun baseLedger hreplay => Moves.ofExcept_bind fun ledger hledger =>
      Moves.ofExcept_bind fun _ _ => ?_
  obtain ⟨hsuffix, hsame⟩ := alignChainSegment_blocks haligned
  refine Acts.of_run_eq (s.segmented E ledger (base ++ aligned.blocks)) (do
    Proc.forEach aligned.receipts fun receipt => do
      let _ ← storeReceipt E receipt
      pure ()
    importVotesOfChain E fuel aligned.proposalVotes (base ++ aligned.blocks)) rfl
    (fun _ => .single (.applySegment ⟨hblocks.takes, fun block hb => hblocks.carried block
      (hsuffix.mem hb)⟩ hbase hreplay hledger)) ?_
  have hreceipts (B : Source) : Stepwise E B (Proc.forEach aligned.receipts fun receipt => do
      let _ ← storeReceipt E receipt
      pure ()) := .forEach fun _ => (storeReceipt_stepwise _).thenPure
  refine Acts.assume fun hc => Moves.bind (hreceipts A _) fun _ n₁ hrun₁ =>
    importVotesOfChain_moves fuel (hsame ▸ hvotes) fun block hb => ?_
  have hsteps : Steps E A.closed _ n₁ := Moves.ok (hreceipts A.closed _) hrun₁ hc.closed
  have hb : block ∈ (s.withSegment ledger (base ++ aligned.blocks)).knownBlocks :=
    hsteps.knownBlocks id hb
  simpa [Node.mem_knownBlocks, Node.withSegment] using hb

/-- Recording what a peer advertised writes the peers' statuses only. -/
theorem recordPeerSyncStatusWithSlot_eq (v : ValidatorId) (status : PeerSyncStatus) :
    ∃ statuses, n.recordPeerSyncStatusWithSlot v status = { n with peerSyncStatus := statuses } ∧
      ∀ q ≠ v, statuses[q]? = n.peerSyncStatus[q]? := by
  unfold Node.recordPeerSyncStatusWithSlot
  split_ifs
  · exact ⟨_, rfl, fun q hq => getElem?_insert_of_notMem v (Set.mem_singleton v) hq⟩
  · exact ⟨n.peerSyncStatus, rfl, fun _ _ => rfl⟩

theorem recordPeerSyncStatusWithSlot_step {v : ValidatorId} (hv : v ∈ A.peers)
    (status : PeerSyncStatus) : Step E A n (n.recordPeerSyncStatusWithSlot v status) := by
  obtain ⟨statuses, heq, hframe⟩ := recordPeerSyncStatusWithSlot_eq (n := n) v status
  rw [heq]
  exact .recordPeer fun q hq => ⟨hframe q fun h => hq (h ▸ hv), rfl⟩

theorem recordPeerSyncStatusWithSlot_core (v : ValidatorId) (status : PeerSyncStatus) :
    (n.recordPeerSyncStatusWithSlot v status).core = n.core := by
  obtain ⟨statuses, h, -⟩ := recordPeerSyncStatusWithSlot_eq (n := n) v status
  rw [h]
  rfl

theorem applyCertifiedSuffix_moves {r : CertifiedSync} (hoffered : r ∈ A.suffixes n.core)
    (hpeer : r.responderId ∈ A.peers) (hblocks : A.Carries r.blocks)
    (hvotes : ∀ qc ∈ r.qcs, ∀ vote ∈ qc.votes, vote ∈ A.votes) :
    Moves (Acts E A) (applyCertifiedSuffix E fuel r) n := by
  refine Moves.read <| slicePrefix_moves fun hlen => Moves.ofExcept_bind fun ledger hledger =>
    Moves.ofExcept_bind fun _ _ => ?_
  refine Acts.modify_bind (fun _ => recordPeerSyncStatusWithSlot_step hpeer _) ?_
  obtain ⟨statuses, hrecord, -⟩ : ∃ statuses, recordCertifiedResponder r ledger.snapshot.height n =
      { n with peerSyncStatus := statuses } ∧ ∀ q ≠ r.responderId,
        statuses[q]? = n.peerSyncStatus[q]? := recordPeerSyncStatusWithSlot_eq _ _
  rw [hrecord]
  split_ifs with hstale
  · exact Moves.pure _
  have hadopt : shouldAdoptCertifiedSnapshot n.ledger.snapshot
      ((n.highestLocalQc.map (·.blockNumber)).getD 0) ledger.snapshot
      (candidateHighestQcHeight r) = true := by simpa using hstale
  have hqcs : Stepwise E A (Proc.forEach r.qcs fun qc => do
      let _ ← importQuorumCertificate E fuel qc
      pure ()) := fun s => Moves.forEach fun qc hqc s' _ =>
    (importQuorumCertificate_stepwise fuel (hvotes qc hqc)).thenPure s'
  refine Acts.bind (adoptCanonicalChain_moves (.sync hoffered hblocks hlen hledger hadopt))
    fun _ n' _ _ => ?_
  exact hqcs.bind (fun _ =>
    .bind (.forEach fun _ => (importServiceAggregate_stepwise _).thenPure) fun _ =>
      .bind Acts.books.refreshServiceScores fun _ =>
        .bind (.book (f := (·.clearSyncRepairMemory r.responderId)) fun _ => ⟨rfl, rfl⟩) fun _ => .pure _) n'

theorem mem_withoutSharedBlock {r : CertifiedSync} :
    (∀ block ∈ (withoutSharedBlock r).blocks, block ∈ r.blocks) ∧
      ∀ qc ∈ (withoutSharedBlock r).qcs, qc ∈ r.qcs := by
  unfold withoutSharedBlock
  split_ifs
  · exact ⟨fun _ => List.mem_of_mem_drop, fun _ => List.mem_of_mem_drop⟩
  · exact ⟨fun _ => id, fun _ => id⟩

example : (withoutSharedBlock
    { responderId := 2, responderHeight := 2, responderTipHash := secondBlock.blockHash
      sharedQcHash := firstBlock.blockHash, sharedQcHeight := 1, headers := []
      blocks := [firstBlock, secondBlock], qcs := [], serviceAggregates := [] }).blocks.map
    (·.blockHash) = [secondBlock.blockHash] := by
  decide +kernel

theorem withoutSharedBlock_responderId {r : CertifiedSync} :
    (withoutSharedBlock r).responderId = r.responderId := by
  unfold withoutSharedBlock
  split_ifs <;> rfl

theorem importCertifiedSyncResponse_moves {response : ChunkedSyncResponse}
    (hpeer : ∀ r, response = .certified r → r.responderId ∈ A.peers)
    (hoffered : ∀ r, response = .certified r → withoutSharedBlock r ∈ A.suffixes n.core)
    (hblocks : ∀ r, response = .certified r → A.Carries r.blocks)
    (hvotes : ∀ r, response = .certified r → ∀ qc ∈ r.qcs, ∀ vote ∈ qc.votes, vote ∈ A.votes) :
    Moves (Acts E A) (importCertifiedSyncResponse E fuel response) n := by
  unfold importCertifiedSyncResponse
  cases response with
  | unavailable => exact Moves.pure _
  | certified r =>
    by_cases hempty : r.blocks.isEmpty
    · simp only [hempty, if_true]
      exact Moves.pure _
    by_cases hlength : r.blocks.length ≠ r.qcs.length ∨ r.headers.length ≠ r.blocks.length
    · simp only [hempty, hlength, if_true, if_false, Bool.false_eq_true]
      exact Moves.throw _
    simp only [hempty, hlength, if_false, Bool.false_eq_true]
    refine Moves.read <| Moves.ofExcept_bind fun sharedQc _ => ?_
    split_ifs
    · exact Moves.pure _
    · refine Acts.modify_bind (fun _ => recordPeerSyncStatusWithSlot_step ?_ _) (Moves.pure _)
      rw [withoutSharedBlock_responderId]
      exact hpeer r rfl
    · exact applyCertifiedSuffix_moves fuel (hoffered r rfl)
        (by rw [withoutSharedBlock_responderId]; exact hpeer r rfl)
        ⟨(hblocks r rfl).takes, fun block hb =>
          (hblocks r rfl).carried block (mem_withoutSharedBlock.1 block hb)⟩
        fun qc hqc => hvotes r rfl qc (mem_withoutSharedBlock.2 qc hqc)

end Import

/-! ## Messages that bring no block -/

section Messages
variable (v : ValidatorId)

/-- What a message settles of the receipt it may be answered with. -/
def Issues (E : Env) (sender : ValidatorId) (payload : ProtocolMessage) (n : Node)
    (receipt : RelayReceipt) : Prop :=
  Witnesses E receipt.sourceValidatorId E.me receipt.slot ∧
  match payload with
  | .heartbeatPulse pulse =>
    receipt.sourceValidatorId = pulse.sourceValidatorId ∧ receipt.slot = pulse.slot
  | .blockProposal block => receipt.sourceValidatorId = sender ∧ receipt.slot = block.header.slot
  | .transactionBroadcast _ => receipt.sourceValidatorId = sender ∧
      (n.lastProcessedSlot = some receipt.slot ∨
        ∃ k < n.clockReads, receipt.slot = E.consensus.slotAt (E.clock k))
  | _ => False

/-- The handling of a message goes on from `n` to `m`; it enters no slot. -/
structure Node.Later (n m : Node) : Prop where
  clock : n.clockReads ≤ m.clockReads
  slot : m.lastProcessedSlot = n.lastProcessedSlot

theorem handleTransaction_moves {tx : SignedTransaction} (localIngress : Bool)
    (h : ∀ m receipt, n.Later m → Issues E v (.transactionBroadcast tx) m receipt →
      receipt ∈ A.receipts m) (htx : tx ∈ A.transactions) :
    Moves (Acts E A) (handleTransaction E tx v localIngress) n := Moves.read <| by
  by_cases hseen : n.seenTransactions.contains tx.txHash
  · rw [if_pos hseen]
    exact Moves.pure _
  rw [if_neg hseen]
  refine Moves.ofExcept_bind fun _ hvalid =>
    Acts.of_run_eq ((addTransaction tx n).withEffect (.transactionAdmitted tx)) (do
      let slot ← processedSlot E
      maybeIssueReceipt E v E.me .transaction slot tx.txHash tx.txHash tx.transaction.nonce
      if localIngress || v != E.me then NodeM.broadcast (.transactionBroadcast tx) else pure ()) rfl
    (fun _ => .single (.addTx tx (by simpa using hseen) hvalid htx)) ?_
  refine Moves.bind (Acts.books.processedSlot _) fun slot m hslot => ?_
  have hm : n.Later m ∧ (m.lastProcessedSlot = some slot ∨
      ∃ k < m.clockReads, slot = E.consensus.slotAt (E.clock k)) := by
    unfold processedSlot at hslot
    rw [Proc.run_get_bind] at hslot
    split at hslot
    · next slot' hprocessed =>
      cases hslot
      exact ⟨⟨le_refl _, rfl⟩, .inl hprocessed⟩
    · cases hslot
      exact ⟨⟨Nat.le_succ _, rfl⟩, .inr ⟨n.clockReads, Nat.lt_succ_self _, rfl⟩⟩
  refine Acts.bind (maybeIssueReceipt_moves fun hw receipt hsource hreceipt => ?_) fun _ s _ _ =>
    Stepwise.moves ?_
  · subst hsource hreceipt
    exact h m receipt hm.1 ⟨hw, rfl, hm.2⟩
  · exact .whenM (.emit fun _ => trivial)

theorem recordStatus_stepwise (hv : v ∈ A.peers) (status : PeerSyncStatus) :
    Stepwise E A (Proc.modify (·.recordPeerSyncStatusWithSlot v status)) :=
  fun _ => Acts.modify fun _ => recordPeerSyncStatusWithSlot_step hv status

/-- Issuing a receipt leaves the ledger as it is. -/
theorem maybeIssueReceipt_keeps_ledger (source destination : ValidatorId) (messageClass : MessageClass)
    (slot : Slot) (transcriptDigest byteHash : HashBytes) (sequenceNumber : Nat) :
    Proc.Keeps Node.ledger (maybeIssueReceipt E source destination messageClass slot transcriptDigest
      byteHash sequenceNumber) n := by
  have hvalidate (receipt : RelayReceipt) (m : Node) :
      Proc.Keeps Node.ledger (validateReceipt E receipt) m := Moves.read <| by
    split_ifs
    · exact Moves.pure _
    · split
      · exact Moves.pure _
      · split_ifs
        · exact Moves.bind (Moves.modify rfl) fun _ _ _ => Moves.throw _
        · exact Moves.throw _
  have hstore (receipt : RelayReceipt) (m : Node) :
      Proc.Keeps Node.ledger (storeReceipt E receipt) m := by
    refine Moves.bind (hvalidate receipt m).attempt fun result s _ => ?_
    cases result with
    | error e => exact Moves.pure _
    | ok _ =>
      obtain ⟨isNew, hrun⟩ := run_persistReceipt (E := E) (n := s) receipt
      unfold Moves
      rw [hrun]
      rfl
  unfold maybeIssueReceipt
  dsimp only
  split_ifs
  · exact Moves.pure _
  refine Moves.ofExcept_bind fun _ _ => Moves.bind (Moves.modify rfl) fun _ _ _ =>
    Moves.bind (Moves.ofExcept _) fun _ _ _ => Moves.bind (hstore _ _) fun inserted _ _ => ?_
  split_ifs
  · exact Moves.modify rfl
  · exact Moves.pure _

theorem handleQuorumCertificate_stepwise {qc : QuorumCertificate} (hv : v ∈ A.peers)
    (hvotes : ∀ vote ∈ qc.votes, vote ∈ A.votes) :
    Stepwise E A (handleQuorumCertificate E fuel v qc) :=
  .read fun _ => .ite
    ((recordStatus_stepwise v hv _).bind fun _ => .logged (Acts.books.requestSyncFrom v))
    (.bind (.attempt (importQuorumCertificate_stepwise fuel hvotes)) fun
      | .ok true => Acts.books.announceCertifiedProgress
      | .ok false => .pure _
      | .error _ => .pure _)

theorem handleSyncStatus_stepwise (hv : v ∈ A.peers) (status : PeerSyncStatus) :
    Stepwise E A (handleSyncStatus E v status) :=
  (recordStatus_stepwise v hv status).bind fun _ => .read fun _ =>
    .ite (.logged (Acts.books.requestSyncFrom v)) (.whenM (.logged (Acts.books.pushBestSyncTo v _ _)))

theorem handleSyncRequest_stepwise (hv : v ∈ A.peers) (height : Nat) (tip : HashBytes) :
    Stepwise E A (handleSyncRequest E v height tip) := by
  have hserve (throttled : Bool) : Stepwise E A (if throttled = true then Pure.pure ()
      else if isForceFullSnapshotHint height tip = true then
        if (E.config.peers.any (·.validatorId == v)) = true then sendFullSnapshotTo E v
        else Proc.throw (.unknownPeer v)
      else do
        recordSyncRequestServed E v height tip
        if E.v2 = true then pushBestSyncTo E v height tip else sendBestSyncTo E v height tip) :=
    .unlessM <| .ite (.ite (Acts.books.sendFullSnapshotTo v) (.throw _)) <|
      (recordSyncRequestServed_stepwise v hv height tip).bind fun _ =>
        .ite (Acts.books.pushBestSyncTo v height tip) (Acts.books.sendBestSyncTo v height tip)
  exact .bind (fun _ => Acts.modify fun _ => recordPeerSyncStatusWithSlot_step hv _) fun _ =>
    .ite (.bind (.pure _) hserve) (.bind (Acts.books.syncRequestIsThrottled v height tip) hserve)

end Messages

theorem enterEpoch_stepwise (epoch : Epoch) (isLiveSlot : Bool) :
    Stepwise E A (enterEpoch E epoch isLiveSlot) := by
  have hrefresh : Stepwise E A (if epoch > 2 then refreshRecentServiceAttestations E epoch
      else Pure.pure ()) := .whenM (refreshRecentServiceAttestations_stepwise epoch)
  exact .read fun _ => .unlessM <| .bind (.book fun _ => ⟨rfl, rfl⟩) fun _ => .whenM <|
    .ite ((Acts.books.requestReceiptReconciliation _).bind fun _ => hrefresh) hrefresh

/-! ## Handlers along a relation -/

/-- The blocks, votes and chains of an event are allowed by `A`, and so is what the node records of
peers and the receipts it signs in answer. -/
structure Source.Admits (A : Source) (E : Env) (n : Node) (event : Event) : Prop where
  blocks : ∀ block ∈ event.gossiped, block ∈ A.blocks := by exact fun _ _ => trivial
  carried : ∀ block ∈ event.carried, block ∈ A.carried := by exact fun _ _ => trivial
  votes : ∀ vote ∈ event.votes, vote ∈ A.votes := by exact fun _ _ => trivial
  snapshot : ∀ sender responder chain, event = .received sender (.syncResponse responder chain) →
    chain ∈ A.snapshots n.core := by exact fun _ _ _ _ => trivial
  suffix : ∀ sender r, event = .received sender (.certifiedSyncResponse (.certified r)) →
    withoutSharedBlock r ∈ A.suffixes n.core := by exact fun _ _ _ => trivial
  peers : ∀ v ∈ event.speakers, v ∈ A.peers := by exact fun _ _ => trivial
  receipts : ∀ sender payload, event = .received sender payload → ∀ m receipt, n.Later m →
    Issues E sender payload m receipt → receipt ∈ A.receipts m := by exact fun _ _ _ _ _ _ _ => trivial
  transactions : ∀ tx, tx ∈ A.transactions := by exact fun _ => trivial
  slots : event = .slotTick → ∀ slot, slot ∈ A.slots := by exact fun _ _ => trivial
  takes : A.takesBlocks := by exact trivial
  appends : A.appends := by exact trivial

theorem Source.Admits.later {event : Event} (h : A.Admits E n event) (hcore : n'.core = n.core)
    (hlater : n.Later n') : A.Admits E n' event where
  blocks := h.blocks
  carried := h.carried
  votes := h.votes
  snapshot sender responder chain he := hcore ▸ h.snapshot sender responder chain he
  suffix sender r he := hcore ▸ h.suffix sender r he
  peers := h.peers
  receipts sender payload he m receipt hm := h.receipts sender payload he m receipt
    ⟨hlater.clock.trans hm.clock, hm.slot.trans hlater.slot⟩
  transactions := h.transactions
  slots := h.slots
  takes := h.takes
  appends := h.appends

/-- The rate limit books a message and nothing else. -/
theorem allowPeerMessage_moves (v : ValidatorId) (payload : ProtocolMessage) :
    Moves (fun n n' => n'.core = n.core ∧ n.Later n') (allowPeerMessage E v payload) n := by
  unfold allowPeerMessage
  split
  · exact ⟨rfl, le_refl _, rfl⟩
  · exact ⟨rfl, Nat.le_succ _, rfl⟩

/-- The relation allows what appends no block, and whatever is done to accept an allowed block. -/
structure Handles (E : Env) (A : Source) (R : Node → Node → Prop) : Prop where
  takes : A.takesBlocks
  still : ∀ {n n' : Node}, Acts E A.still n n' → R n n'
  accept : ∀ (fuel : Nat) {n : Node} {block : Block} (localProposal : Bool), A.Block n block →
    Moves R (acceptBlock E fuel block localProposal) n

/-- Accepting a block is a chain of steps like the rest. -/
theorem Acts.handles (htakes : A.takesBlocks) (happends : A.appends) : Handles E A (Acts E A) where
  takes := htakes
  still h hc := (h hc.still).of_still
  accept fuel _ _ localProposal hsource := acceptBlock_moves fuel localProposal happends hsource

namespace Handles

variable {R : Node → Node → Prop} (hR : Handles E A R) {α : Type}
include hR

theorem quietly {m : NodeM α} (h : Moves (Acts E A.still) m n) : Moves R m n :=
  h.mono fun _ => hR.still

theorem quiet {m : NodeM α} (h : Stepwise E A.still m) : Always R m := fun n => hR.quietly (h n)

theorem carries {blocks : List Block} (h : ∀ block ∈ blocks, block ∈ A.carried) :
    A.still.Carries blocks := ⟨hR.takes, h⟩

variable [IsPreorder Node R]

theorem modify_bind {f : Node → Node} {g : Unit → NodeM α} (h : Step E A.still n (f n))
    (hg : Moves R (g ()) (f n)) : Moves R (Proc.modify f >>= g) n :=
  Moves.of_run_eq (f n) rfl (hR.still fun _ => .single h) hg

/-! ### Orphans -/

theorem promoteOrphan (index : Nat) : Always R (promoteOrphan E fuel index) :=
  fun n => Moves.read <| by
    split
    · exact Moves.pure _
    · next orphan horphan =>
      refine hR.modify_bind (.emit (.orphanTaken orphan) (List.mem_of_getElem? horphan)) <|
        hR.modify_bind (.takeOrphan index) ?_
      refine (Moves.attempt (hR.accept fuel false ⟨hR.takes, .inr (.inr ?_)⟩)).bind
        fun _ _ _ => Moves.pure _
      exact Node.mem_takenOrphans.2 List.mem_cons_self

theorem tryPromoteOrphans (rounds : Nat) : Always R (tryPromoteOrphans E fuel rounds) := by
  induction rounds with
  | zero => exact .outOfFuel
  | succ rounds ih =>
    refine .read fun _ => ?_
    split
    · exact .pure _
    · exact (hR.promoteOrphan fuel _).bind fun _ => ih

/-! ### Slots -/

theorem proposeNewBlock {slot : Slot} {epoch : Epoch} (hepoch : epoch = E.consensus.epochForSlot slot) :
    Always R (proposeNewBlock E fuel slot epoch) := fun n => Moves.read <| by
  refine Moves.bind (hR.quiet .now n) fun timestamp s hs => ?_
  obtain rfl : { n with clockReads := n.clockReads + 1 } = s := by
    cases hs
    rfl
  refine Moves.ofExcept_bind fun block hblock =>
    hR.modify_bind (.emit (.blockBuilt block) ⟨slot, epoch, timestamp, hblock, hepoch⟩) ?_
  refine Moves.bind (hR.accept fuel true ⟨hR.takes, .inr (.inl ?_)⟩) fun acceptance n' _ => ?_
  · simp [Node.builtBlocks, Node.withEffect]
  · have hended : Always R (do
        let n ← Proc.get
        if acceptance = .accepted then do
          Entangrid.tryPromoteOrphans E fuel fuel
          NodeM.broadcast (.blockProposal block)
        else if acceptance = .orphan && n.isPendingCertifiedHeadBlock block then
          NodeM.broadcast (.blockProposal block)
        else Pure.pure ()) :=
      .read fun _ => .ite
        ((hR.tryPromoteOrphans fuel fuel).bind fun _ => hR.quiet (.emit fun _ => trivial))
        (hR.quiet (.whenM (.emit fun _ => trivial)))
    exact hended n'

theorem maybeProposeBlock {slot : Slot} {epoch : Epoch} (hepoch : epoch = E.consensus.epochForSlot slot) :
    Always R (maybeProposeBlock E fuel slot epoch) :=
  .read fun _ => .unlessM <| (hR.quiet Acts.books.startupSyncBlocksProposal).bind fun _ => .unlessM <|
    .read fun _ => .unlessM <| .bind (hR.quiet (.book fun _ => ⟨rfl, rfl⟩)) fun _ => by
      split
      · exact hR.quiet ((castVote_stepwise fuel _).bind fun _ => .emit fun _ => trivial)
      · exact hR.proposeNewBlock fuel hepoch

theorem processSlot (currentSlot : Slot) {slot : Slot} (hslot : slot ∈ A.slots) :
    Always R (processSlot E fuel currentSlot slot) := by
  have hpropose : Always R (do
      Entangrid.maybeProposeBlock E fuel slot (E.consensus.epochForSlot slot)
      Entangrid.tryPromoteOrphans E fuel fuel) :=
    (hR.maybeProposeBlock fuel rfl).bind fun _ => hR.tryPromoteOrphans fuel fuel
  have hrepair : Always R (do
      if E.v2 = true then
        let _ ← maybeRepairStalePendingCertifiedChild E slot
        Pure.pure ()
      else Pure.pure ()
      Entangrid.maybeProposeBlock E fuel slot (E.consensus.epochForSlot slot)
      Entangrid.tryPromoteOrphans E fuel fuel) :=
    .ite ((hR.quiet (Acts.books.maybeRepairStalePendingCertifiedChild slot)).bind fun _ => hpropose)
      hpropose
  exact (hR.quiet fun _ => Acts.modify fun _ => .enterSlot slot hslot).bind fun _ =>
    (hR.quiet Acts.books.refreshServiceScores).bind fun _ =>
      (hR.quiet (enterEpoch_stepwise _ _)).bind fun _ =>
      .whenM <| (hR.quiet (Acts.books.broadcastHeartbeat _ _)).bind fun _ =>
      .read fun _ => .ite ((hR.quiet (Acts.books.maybeBroadcastRecoverySyncStatus slot)).bind fun _ =>
        (hR.quiet (Acts.books.maybeRequestRecoverySync slot)).bind fun _ => hrepair) hrepair

theorem processSlotTick (hslots : ∀ slot, slot ∈ A.slots) : Always R (processSlotTick E fuel) :=
  (hR.quiet .now).bind fun _ => .read fun _ => .unlessM <| .forEach fun slot =>
    hR.processSlot fuel _ (hslots slot)

/-! ### Messages -/

section
variable (v : ValidatorId)

/-- The block is offered to the store on the ledger the message met. -/
theorem handleBlockProposal {block : Block} (hv : v ∈ A.peers)
    (haccept : ∀ m, m.ledger = n.ledger → Moves R (acceptBlock E fuel block false) m)
    (h : ∀ m receipt, n.Later m → Issues E v (.blockProposal block) m receipt →
      receipt ∈ A.receipts m) :
    Moves R (handleBlockProposal E fuel v block) n := by
  obtain ⟨statuses, hrecorded, -⟩ := recordPeerSyncStatusWithSlot_eq (n := n) v
    { height := block.header.blockNumber, tipHash := block.blockHash
      tipLastSlot := block.header.slot, highestQcHash := none, highestQcHeight := 0
      recentQcAnchors := [] }
  refine hR.modify_bind (recordPeerSyncStatusWithSlot_step (A := A.still) hv _) ?_
  rw [hrecorded]
  refine Moves.bind (hR.quietly (maybeIssueReceipt_moves fun hw receipt hsource hslot => h _ receipt ?_
    ⟨by rw [hsource, hslot]; exact hw, hsource, hslot⟩)) fun _ s hrun => ?_
  · exact ⟨le_refl _, rfl⟩
  have hkept := Moves.ok (maybeIssueReceipt_keeps_ledger _ _ _ _ _ _ _) hrun
  have hledger : s.ledger = n.ledger := hkept
  refine Moves.bind (haccept s hledger).attempt fun result s' _ => ?_
  cases result with
  | ok acceptance =>
    cases acceptance with
    | accepted =>
      refine Always.bind (hR.tryPromoteOrphans fuel fuel) (fun _ => ?_) s'
      exact hR.quiet (.emit fun _ => trivial)
    | orphan =>
      refine hR.quiet (.read fun _ => .ite (.logged (Acts.books.requestLegacySyncFrom v)) ?_) s'
      exact .bind (.book fun _ => ⟨rfl, rfl⟩) fun _ => .bind (.logged (Acts.books.pushBestSyncTo v _ _))
        fun _ => .logged (Acts.books.requestSyncFrom v)
    | duplicate => exact Moves.pure _
  | error e => exact Moves.pure _

theorem afterSyncApplied : Always R (afterSyncApplied E fuel v) := by
  refine (hR.tryPromoteOrphans fuel fuel).bind fun _ => hR.quiet ?_
  exact .bind (.book fun _ => ⟨rfl, rfl⟩) fun _ => .read fun _ => .ite
    (.bind (Acts.books.requestSyncFrom v) fun _ => .logged Acts.books.maybePushTipProgress)
    (.logged Acts.books.maybePushTipProgress)

theorem handleSyncResponse {chain : ChainSnapshot} (hv : v ∈ A.peers)
    (hoffered : chain ∈ A.snapshots n.core) (hblocks : ∀ block ∈ chain.blocks, block ∈ A.carried)
    (hvotes : ∀ vote ∈ chain.proposalVotes, vote ∈ A.votes) :
    Moves R (handleSyncResponse E fuel v chain) n := by
  refine hR.modify_bind (recordPeerSyncStatusWithSlot_step (A := A.still) hv _) <| Moves.read ?_
  split_ifs with hadopt
  · have hoffered' : chain ∈ A.snapshots (recordResponder v chain.snapshot n).core := by
      rwa [recordResponder, recordPeerSyncStatusWithSlot_core]
    refine Moves.bind (hR.quietly
      (applyChainSnapshot_moves fuel hoffered' (hR.carries hblocks) hvotes hadopt)).attempt
      fun result n' _ => ?_
    cases result with
    | ok _ => exact hR.afterSyncApplied fuel v n'
    | error _ => exact Moves.pure _
  · exact hR.quiet (.logged (Acts.books.pushBestSyncTo v _ _)) _
  · exact Moves.pure _

theorem handleSyncBlocks {chain : ChainSegment} (hv : v ∈ A.peers)
    (hblocks : ∀ block ∈ chain.blocks, block ∈ A.carried)
    (hvotes : ∀ vote ∈ chain.proposalVotes, vote ∈ A.votes) :
    Always R (handleSyncBlocks E fuel v chain) :=
  (hR.quiet (recordStatus_stepwise (A := A.still) v hv _)).bind fun _ => .read fun _ => .unlessM <|
    .bind (hR.quiet (.attempt (applyChainSegment_stepwise fuel (hR.carries hblocks) hvotes))) fun
      | .ok _ => hR.afterSyncApplied fuel v
      | .error _ => hR.quiet (.bind (.book fun _ => ⟨rfl, rfl⟩) fun _ =>
        .logged (Acts.books.requestSyncFrom v))

theorem handleCertifiedSyncResponse {response : ChunkedSyncResponse}
    (hpeer : ∀ r, response = .certified r → r.responderId ∈ A.peers)
    (hoffered : ∀ r, response = .certified r → withoutSharedBlock r ∈ A.suffixes n.core)
    (hblocks : ∀ r, response = .certified r → ∀ block ∈ r.blocks, block ∈ A.carried)
    (hvotes : ∀ r, response = .certified r → ∀ qc ∈ r.qcs, ∀ vote ∈ qc.votes, vote ∈ A.votes) :
    Moves R (handleCertifiedSyncResponse E fuel v response) n := by
  refine Moves.bind (hR.quietly (importCertifiedSyncResponse_moves fuel hpeer hoffered
    (fun r hr => hR.carries (hblocks r hr)) hvotes)).attempt fun result n' _ => ?_
  cases result with
  | ok result =>
    cases result with
    | applied =>
      exact (hR.tryPromoteOrphans fuel fuel).bind
        (fun _ => hR.quiet Acts.books.announceCertifiedProgress) n'
    | ignored reason => exact hR.quiet (.logged (Acts.books.followUpIgnored v reason)) n'
  | error _ =>
    exact hR.quiet (.bind (.book (f := (·.recordSyncRepairFailure v)) fun _ => ⟨rfl, rfl⟩)
      fun _ => .logged (Acts.books.requestBestExcluding _).thenPure) n'

end

theorem dispatchMessage {sender : ValidatorId} {payload : ProtocolMessage}
    (hA : A.Admits E n (.received sender payload)) :
    Moves R (dispatchMessage E fuel sender payload) n := by
  cases payload with
  | transactionBroadcast tx =>
    refine Moves.bind (hR.quietly (handleTransaction_moves sender false (hA.receipts _ _ rfl)
      (hA.transactions tx))).attempt fun _ _ _ => Moves.pure _
  | blockProposal block =>
    refine hR.handleBlockProposal fuel sender (hA.peers sender (by simp [Event.speakers])) ?_
      (hA.receipts _ _ rfl)
    exact fun m _ => hR.accept fuel false ⟨hR.takes, .inl (hA.blocks block (by simp [Event.gossiped]))⟩
  | proposalVote vote =>
    refine hR.quiet (.whenM (.logged ?_)) n
    exact Stepwise.thenPure fun _ =>
      importProposalVote_moves (A := A.still) fuel (.inl (hA.votes vote (by simp [Event.votes])))
  | quorumCertificate qc =>
    exact hR.quiet (.whenM (handleQuorumCertificate_stepwise fuel sender
      (hA.peers sender (by simp [Event.speakers])) hA.votes)) n
  | syncStatus v _ _ _ _ _ _ =>
    exact hR.quiet (handleSyncStatus_stepwise (A := A.still) v
      (hA.peers v (by simp [Event.speakers])) _) n
  | syncRequest v height tip =>
    exact hR.quiet (handleSyncRequest_stepwise (A := A.still) v
      (hA.peers v (by simp [Event.speakers])) height tip) n
  | syncResponse v chain =>
    exact hR.handleSyncResponse fuel v (hA.peers v (by simp [Event.speakers]))
      (hA.snapshot _ _ _ rfl) hA.carried hA.votes
  | syncBlocks v chain =>
    exact hR.handleSyncBlocks fuel v (hA.peers v (by simp [Event.speakers])) hA.carried hA.votes n
  | certifiedSyncRequest request =>
    exact hR.quiet (.whenM (Acts.books.handleCertifiedSyncRequest request)) n
  | certifiedSyncResponse response =>
    unfold Entangrid.dispatchMessage
    split_ifs
    · refine hR.handleCertifiedSyncResponse fuel sender ?_ ?_ ?_ ?_
      · rintro r rfl
        exact hA.peers _ (by simp [Event.speakers])
      · rintro r rfl
        exact hA.suffix _ r rfl
      · rintro r rfl
        exact hA.carried
      · rintro r rfl qc hqc vote hvote
        exact hA.votes vote (List.mem_flatMap.2 ⟨qc, hqc, hvote⟩)
    · exact Moves.pure _
  | heartbeatPulse pulse =>
    exact hR.quietly <| maybeIssueReceipt_moves fun hw receipt hsource hslot =>
      hA.receipts _ _ rfl n receipt ⟨le_refl _, rfl⟩
        ⟨by rw [hsource, hslot]; exact hw, hsource, hslot⟩
  | relayReceipt receipt =>
    refine hR.quiet ((storeReceipt_stepwise receipt).bind fun _ => ?_) n
    exact .whenM (.emit fun _ => trivial)
  | serviceAttestation a => exact hR.quiet (.whenM (handleServiceAttestation_stepwise a)) n
  | serviceAggregate a => exact hR.quiet (.whenM (handleServiceAggregate_stepwise a)) n
  | receiptFetch v epoch w => exact hR.quiet (Acts.books.handleReceiptFetch v epoch w) n
  | receiptResponse => exact hR.quiet (.forEach fun r => (storeReceipt_stepwise r).thenPure) n

/-- A message is dispatched on the state it met, but for what is booked of it. -/
theorem received {sender : ValidatorId} {payload : ProtocolMessage}
    (hdispatch : ∀ m, m.core = n.core → n.Later m →
      Moves R (Entangrid.dispatchMessage E fuel sender payload) m) :
    Moves R (handleEvent E fuel (.received sender payload)) n := by
  refine hR.modify_bind (.book rfl rfl) ?_
  refine Moves.bind (hR.quiet (Acts.books.allowPeerMessage sender payload) _) fun allowed s hrun => ?_
  obtain ⟨hcore, hlater⟩ := (allowPeerMessage_moves sender payload).ok hrun
  split_ifs
  · exact hdispatch s hcore ⟨hlater.clock, hlater.slot⟩
  · exact Moves.pure _

/-- **An event is handled along the relation.** -/
theorem handleEvent {event : Event} (hA : A.Admits E n event) :
    Moves R (handleEvent E fuel event) n := by
  cases event with
  | slotTick => exact hR.processSlotTick fuel (hA.slots rfl) n
  | inboxTick files =>
    -- the node does not witness itself
    refine hR.quiet (Stepwise.bind (.check _) fun _ => .forEach fun _ => Stepwise.thenPure <|
      Stepwise.attempt fun _ => ?_) n
    exact handleTransaction_moves (A := A.still) _ true (fun _ _ _ h => absurd h.2.1 h.1.other)
      (hA.transactions _)
  | metricsTick => exact hR.quiet Acts.books.refreshServiceScores n
  | syncTick => exact hR.quiet (.whenM Acts.books.runSyncMaintenance) n
  | received sender payload =>
    exact hR.received fuel fun m hcore hlater => hR.dispatchMessage fuel (hA.later hcore hlater)
  | sessionObserved peer outbound serviceAccountable =>
    exact hR.quiet (.whenM (Acts.books.handleSessionObserved peer)) n
  | sessionFailed peer outbound serviceAccountable faultInjected =>
    refine hR.modify_bind (.book rfl rfl) ?_
    cases peer with
    | none => exact Moves.pure _
    | some peer =>
      exact hR.quiet (.whenM (.bind Acts.books.currentEpoch fun _ =>
        .book fun _ => ⟨recordFailedSession_core, recordFailedSession_records⟩)) _
  | inboundSessionDropped => exact Moves.pure _

end Handles

/-- **Handling an event is a chain of steps.** -/
theorem handleEvent_moves {event : Event} (hA : A.Admits E n event) :
    Moves (Acts E A) (handleEvent E fuel event) n :=
  (Acts.handles hA.takes hA.appends).handleEvent fuel hA

/-! ## Runs -/

theorem Source.covers_fresh (slot : Option Slot) : A.Covers (Node.fresh E slot) where
  blocks := by simp [Node.knownBlocks, Node.fresh]
  taken := by simp [Node.takenOrphans, Node.fresh]
  votes := by
    rintro vote ⟨h, v, hl | hl⟩
    · simp [Node.fresh] at hl
    · simp [Node.fresh] at hl
  certificates := by simp [Node.fresh]

section Runs
variable {P : Node → Event → Prop} (hA : ∀ n event, P n event → A.Admits E n event)
include hA

theorem Reachable.covers (hn : Reachable E P n) : A.Covers n := by
  induction hn with
  | fresh slot => exact A.covers_fresh slot
  | handle fuel event _ hP hrun ih =>
    exact Steps.covers (Moves.of_state? (handleEvent_moves fuel (hA _ event hP)) hrun ih) ih

/-- **What fresh nodes have and every step keeps, every reachable state has.** -/
theorem Reachable.invariant {I : Node → Prop} (hfresh : ∀ slot, I (Node.fresh E slot))
    (hstep : ∀ n n', A.Covers n → I n → Step E A n n' → I n') (hn : Reachable E P n) : I n := by
  induction hn with
  | fresh slot => exact hfresh slot
  | handle fuel event hn hP hrun ih =>
    have hc := hn.covers hA
    have hsteps := Moves.of_state? (handleEvent_moves fuel (hA _ event hP)) hrun hc
    clear hrun
    induction hsteps with
    | refl => exact ih
    | tail hsteps hlast ih' => exact hstep _ _ (Steps.covers hsteps hc) ih' hlast

end Runs

end Entangrid
