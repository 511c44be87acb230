import Entangrid.Node.Proof.Termination
import Entangrid.Node.Proof.Writes

/-!
# Handlers as chains of writes

The voting cycle, block acceptance, chain imports and the event handlers, along `Write`.

* `handleEvent_writes`: what an event allows a node to say, and what it then says.
-/

namespace Entangrid

open Proc (Always Moves)

variable {E : Env} {O : Occasion} {n n' : Node}

/-! ## Votes -/

theorem noVotes_of_getElem? {h : HashBytes} {byValidator : BTreeMap ValidatorId ProposalVote}
    (hsome : n.proposalVotes[h]? = some byValidator) : ¬n.NoVotes := by
  intro hn
  rw [hn.1] at hsome
  simp at hsome

theorem storeProposalVote_writes (hv2 : E.v2 = true) (vote : ProposalVote) :
    Always (Writes E O) (storeProposalVote E vote) := fun n => by
  have hdrop (conflicts : List ProposalVote) : Unwatched E O n (n.withoutVotes conflicts) := by
    rw [Node.withoutVotes_eq]
    exact .of_votes rfl rfl rfl (.inl hv2)
  apply storeResolved_moves
  · exact fun _ => .refl
  · exact fun conflicts _ => Writes.single (.quiet (hdrop conflicts))
  · intro conflicts _ _ _
    have hadd : Unwatched E O (n.withoutVotes conflicts)
        { n.withoutVotes conflicts with
          proposalVotes := VoteMap.store (n.withoutVotes conflicts).proposalVotes vote } :=
      .of_votes rfl rfl rfl (.inl hv2)
    exact ((Relation.ReflTransGen.single (.quiet (hdrop conflicts))).tail (.quiet hadd)).tail
      (.note _ rfl)

theorem storeBufferedProposalVote_writes (hv2 : E.v2 = true) (vote : ProposalVote) :
    Always (Writes E O) (storeBufferedProposalVote E vote) := fun n => by
  have hdrop (conflicts : List ProposalVote) : Unwatched E O n (n.withoutVotes conflicts) := by
    rw [Node.withoutVotes_eq]
    exact .of_votes rfl rfl rfl (.inl hv2)
  apply storeResolved_moves
  · exact fun _ => .refl
  · exact fun conflicts _ => Writes.single (.quiet (hdrop conflicts))
  · intro conflicts _ _ _
    have hadd : Unwatched E O (n.withoutVotes conflicts)
        { n.withoutVotes conflicts with
          bufferedProposalVotes :=
            VoteMap.store (n.withoutVotes conflicts).bufferedProposalVotes vote } :=
      .of_votes rfl rfl rfl (.inl hv2)
    exact ((Relation.ReflTransGen.single (.quiet (hdrop conflicts))).tail (.quiet hadd)).tail
      (.note _ rfl)

theorem persistQuorumCertificates_writes : Always (Writes E O) persistQuorumCertificates :=
  .read fun _ => Writes.store _

/-- A chain of blocks the node knows or is dealing with takes the place of the old one. -/
theorem adopt_unwatched {ledger : LedgerState} {chain : List Block}
    (hchain : ∀ block ∈ chain, block ∈ n.knownBlocks ∨ O.Origin n block) :
    Unwatched E O n (n.withCanonicalChain ledger chain) := by
  refine .of_blocks rfl rfl rfl (List.nil_subset _) fun block hb => ?_
  rcases Node.mem_knownBlocks.1 hb with hb | hb | hb
  · exact hchain block hb
  · cases hb
  · refine .inl (Node.mem_knownBlocks.2 ?_)
    have hb := List.mem_of_mem_filter hb
    simpa [or_assoc, or_comm, or_left_comm] using hb

theorem adoptKnownChain_writes {chain : List Block}
    (hchain : ∀ block ∈ chain, block ∈ n.knownBlocks ∨ O.Origin n block) :
    Moves (Writes E O) (adoptCanonicalChain E chain) n := by
  refine Moves.ofExcept_bind fun ledger _ => ?_
  refine Moves.bind (Moves.modify (Writes.single (.quiet (adopt_unwatched hchain)))) fun _ s _ => ?_
  refine Moves.bind (importCommitmentReceipts_writes _ s) fun _ s' _ => ?_
  refine Moves.bind (Writes.aside_moves rfl) fun _ s'' _ => Moves.read ?_
  exact (Writes.store _).bind (fun _ => (Writes.store _).bind fun _ => (Writes.store _).bind fun _ =>
    persistQuorumCertificates_writes) s''

theorem maybeAdoptCertifiedBranch_writes (tipHash : HashBytes) :
    Always (Writes E O) (maybeAdoptCertifiedBranch E tipHash) := fun n => Moves.read <| by
  split
  · exact Moves.pure _
  · next chain hchain =>
    refine Moves.bind (adoptKnownChain_writes fun block hb => .inl ?_) fun _ s _ => Moves.pure _
    exact Node.buildChainToTip_known (certifiedBranchCandidate_eq_some hchain).1 hb

theorem prune_unwatched (n : Node) (h : HashBytes) (height : Nat) :
    Unwatched E O n (n.pruneVotesNotExtendingCertifiedBlock h height) :=
  .of_votes rfl rfl rfl (.inr fun hn => ⟨filter_eq_empty hn.1, filter_eq_empty hn.2.1, hn.2.2⟩)

theorem maybeBuildQc_writes (blockHash : HashBytes) :
    Always (Writes E O) (maybeBuildQc E blockHash) := fun n => Moves.read <| by
  split
  · exact Moves.pure _
  · split
    · exact Moves.pure _
    · next qc hqc =>
      obtain ⟨_, _, -, hvotes, -⟩ := assembledQc_eq_some hqc
      split_ifs
      · exact Moves.throw _
      · have hadd : Unwatched E O n (n.addQc qc) :=
          .of_votes rfl rfl rfl (.inr fun hn => absurd hn (noVotes_of_getElem? hvotes))
        refine Moves.bind (Moves.modify (Writes.single (.quiet hadd))) fun _ s _ => ?_
        exact Always.bind (Writes.note rfl) (fun _ => (Writes.store _).bind fun _ =>
          .bind (Writes.quiet fun m => prune_unwatched m _ _) fun _ => .pure _) s

/-- A certificate that was not there before is recorded as built. -/
theorem maybeBuildQc_recorded {blockHash : HashBytes} {qc : QuorumCertificate}
    (hrun : (maybeBuildQc E blockHash).run n = .ok (some qc) n') (hnew : n.hasQc blockHash = false) :
    .qcBuilt qc ∈ n'.effects := by
  have hnone : n.quorumCertificates[blockHash]? = none := by
    simpa [Node.hasQc, ← Std.ExtTreeMap.isSome_getElem?_eq_contains] using hnew
  unfold maybeBuildQc at hrun
  rw [Proc.run_get_bind, hnone] at hrun
  dsimp only at hrun
  split at hrun
  · cases hrun
  · next built _ =>
    split_ifs at hrun
    · cases hrun
    · cases hrun
      exact List.mem_cons_of_mem _ List.mem_cons_self

/-- A certificate is announced by the node that built it. -/
theorem broadcastQc_moves {qc : QuorumCertificate} (h : .qcBuilt qc ∈ n.effects) :
    Moves (Writes E O) (NodeM.broadcast (.quorumCertificate qc)) n :=
  Moves.modify (Writes.single (.broadcast _ (Writes.maySay h rfl)))

/-! ## The voting cycle -/

section Cycle
variable {castVote : Block → NodeM Unit} (hcast : ∀ block, Always (Writes E O) (castVote block))
include hcast

theorem maybeAdoptBetterUncertifiedChildWith_writes :
    Always (Writes E O) (maybeAdoptBetterUncertifiedChildWith E castVote) := fun n => Moves.read <| by
  split
  · exact Moves.pure _
  · next child chain hchain =>
    refine Moves.bind (adoptKnownChain_writes fun block hb => .inl ?_) fun _ s _ =>
      (hcast child).thenPure s
    exact Node.buildChainToTip_known (betterUncertifiedChild_eq_some hchain).2 hb

theorem maybeBroadcastVoteForPreQcTipWith_writes :
    Always (Writes E O) (maybeBroadcastLocalVoteForCurrentPreQcTipWith E castVote) :=
  .read fun _ => .unlessM <| by
    split
    · exact hcast _
    · exact .pure _

theorem maybeAdoptVoteSupportedBranchWith_writes (tipHash : HashBytes) :
    Always (Writes E O) (maybeAdoptVoteSupportedBranchWith E castVote tipHash) := fun n =>
  Moves.read <| by
    split
    · exact Moves.pure _
    · next chain hchain =>
      refine Moves.bind (adoptKnownChain_writes fun block hb => .inl ?_) fun _ s _ =>
        (maybeBroadcastVoteForPreQcTipWith_writes hcast).thenPure s
      exact Node.buildChainToTip_known (voteSupportedCandidate_eq_some hchain).2.2.1 hb

theorem maybeFinalizeQuorumCertificateWith_writes (blockHash : HashBytes) :
    Always (Writes E O) (maybeFinalizeQuorumCertificateWith E castVote blockHash) := fun n =>
  Moves.read <| by
    refine Moves.bind (maybeBuildQc_writes blockHash n) fun built n₁ hrun => ?_
    cases built with
    | none => exact Moves.pure _
    | some qc =>
      refine Writes.assume fun hn₁ => Moves.bind (maybeAdoptCertifiedBranch_writes _ n₁)
        fun _ n₂ h₂ => Moves.bind (maybeAdoptBetterUncertifiedChildWith_writes hcast n₂)
          fun _ n₃ h₃ => ?_
      have hchain₂ := (maybeAdoptCertifiedBranch_writes (O := O) _ n₁).ok h₂ hn₁
      have hchain₃ := (maybeAdoptBetterUncertifiedChildWith_writes hcast n₂).ok h₃
        (inOrder_of_chain hchain₂ hn₁)
      dsimp only
      split_ifs with hhad
      · refine Moves.bind (broadcastQc_moves ?_) fun _ s _ =>
          announceCertifiedProgress_writes.thenPure s
        have hbuilt := maybeBuildQc_recorded hrun (by simpa using hhad)
        exact (effects_suffix_of_chain (hchain₂.trans hchain₃)).mem hbuilt
      · exact Moves.pure _

theorem advanceAfterVoteWith_writes (blockHash : HashBytes) :
    Always (Writes E O) (advanceAfterVoteWith E castVote blockHash) :=
  (maybeFinalizeQuorumCertificateWith_writes hcast blockHash).bind fun
    | some _ => .pure _
    | none => (maybeAdoptVoteSupportedBranchWith_writes hcast _).thenPure

theorem importProposalVoteWith_writes (vote : ProposalVote) :
    Always (Writes E O) (importProposalVoteWith E castVote vote) := by
  by_cases hv2 : E.v2 = true
  · refine .ite (.throw _) <| .bind (.ofExcept _) fun _ => .bind (.ofExcept _) fun _ => .read fun _ => ?_
    split
    · exact storeBufferedProposalVote_writes hv2 vote
    · exact .ite (.pure _) <| .bind (.ofExcept _) fun _ =>
        (storeProposalVote_writes hv2 vote).bind fun inserted =>
          .ite (.bind (advanceAfterVoteWith_writes hcast _) fun _ => .pure _) (.pure _)
  · unfold importProposalVoteWith
    simp only [hv2, Bool.not_false, if_true]
    exact .throw _

omit hcast in
/-- A vote that is imported was checked. -/
theorem importProposalVoteWith_valid {vote : ProposalVote} {isNew : Bool}
    (hrun : (importProposalVoteWith E castVote vote).run n = .ok isNew n') :
    validateProposalVoteSignatureAndSigner E vote = .ok () ∧
      validateHybridProposalVotePolicy E vote = .ok () := by
  unfold importProposalVoteWith at hrun
  split_ifs at hrun
  · cases hrun
  · obtain ⟨_, hsigner, hrun⟩ := Proc.ofExcept_bind_eq_ok hrun
    obtain ⟨_, hpolicy, -⟩ := Proc.ofExcept_bind_eq_ok hrun
    exact ⟨hsigner, hpolicy⟩

theorem maybeBroadcastLocalProposalVoteWith_writes (block : Block) :
    Always (Writes E O) (maybeBroadcastLocalProposalVoteWith E castVote block) := by
  intro n
  unfold maybeBroadcastLocalProposalVoteWith
  split_ifs with hv1
  · exact Moves.pure _
  refine Moves.ofExcept_bind fun vote hvote => ?_
  have hnote : (Effect.voteSigned vote).isNote E = true := by simpa [Effect.isNote] using hv1
  refine Always.bind (Writes.note hnote) (fun _ => .read fun _ => .unlessM fun s => ?_) n
  refine Moves.bind ((importProposalVoteWith_writes hcast vote).attempt s) fun result s' hrun => ?_
  cases result with
  | ok isNew =>
    have hvalid := importProposalVoteWith_valid (Proc.run_of_attempt_ok hrun)
    have hmay (m : Node) : Says E O m (.proposalVote vote) := ⟨⟨block, hvote⟩, hvalid⟩
    exact Always.whenM (Writes.broadcast hmay rfl) s'
  | error e => exact Always.unlessM (.throw _) s'

end Cycle

section Closed
variable (fuel : Nat)

theorem castVote_writes (block : Block) :
    Always (Writes E O) (maybeBroadcastLocalProposalVote E fuel block) := by
  induction fuel generalizing block with
  | zero => exact .outOfFuel
  | succ fuel ih => exact maybeBroadcastLocalProposalVoteWith_writes ih block

theorem maybeFinalizeQuorumCertificate_writes (blockHash : HashBytes) :
    Always (Writes E O) (maybeFinalizeQuorumCertificate E fuel blockHash) :=
  maybeFinalizeQuorumCertificateWith_writes (castVote_writes fuel) blockHash

theorem maybeAdoptBetterUncertifiedChild_writes :
    Always (Writes E O) (maybeAdoptBetterUncertifiedChildForCertifiedHead E fuel) :=
  maybeAdoptBetterUncertifiedChildWith_writes (castVote_writes fuel)

theorem importProposalVote_writes (vote : ProposalVote) :
    Always (Writes E O) (importProposalVote E fuel vote) :=
  importProposalVoteWith_writes (castVote_writes fuel) vote

theorem importQuorumCertificate_writes (qc : QuorumCertificate) :
    Always (Writes E O) (importQuorumCertificate E fuel qc) := by
  by_cases hv2 : E.v2 = true
  · refine .ite (.throw _) <| .read fun _ => ?_
    split
    · exact .throw _
    · refine .bind (.ofExcept _) fun _ => .bind (.forEach fun vote => ?_) fun _ => .read fun _ =>
        .ite (.pure _) ?_
      · exact .bind (Writes.quiet fun _ => .of_votes rfl rfl rfl (.inl hv2)) fun _ =>
          (storeProposalVote_writes hv2 vote).thenPure
      · exact .bind (Writes.quiet fun _ => .of_votes rfl rfl rfl (.inl hv2)) fun _ =>
          (Writes.store _).bind fun _ => .bind (Writes.quiet fun m => prune_unwatched m _ _) fun _ =>
            (maybeAdoptCertifiedBranch_writes _).bind fun _ =>
              (maybeAdoptBetterUncertifiedChild_writes fuel).thenPure
  · unfold importQuorumCertificate
    simp only [hv2, Bool.not_false, if_true]
    exact .throw _

theorem importBufferedVotes_writes (block : Block) :
    Always (Writes E O) (importBufferedProposalVotesForBlock E fuel block) := .read fun _ => by
  split
  · exact .pure _
  · refine .bind (Writes.quiet fun m => .of_votes rfl rfl rfl (.inr fun hm => ⟨hm.1, ?_, hm.2.2⟩))
      fun _ => .forEach fun vote => (importProposalVote_writes fuel vote).attempt.thenPure
    rw [hm.2.1]
    exact Std.ExtTreeMap.erase_empty

theorem maybeBroadcastVoteForCompetingBlock_writes (block : Block) :
    Always (Writes E O) (maybeBroadcastVoteForCompetingBlock E fuel block) :=
  .unlessM <| .read fun _ => .bind (.ofExcept _) fun _ => .whenM (castVote_writes fuel block)

theorem maybeAdoptPreferredCompetingBranch_writes {block : Block} (hblock : block ∈ O.blocks) :
    Always (Writes E O) (maybeAdoptPreferredCompetingBranch E fuel block) := fun n =>
  Moves.read <| by
    split_ifs
    · exact Moves.pure _
    refine Moves.ofExcept_bind fun candidate hcandidate => ?_
    cases candidate with
    | none => exact Moves.pure _
    | some chain =>
      dsimp only
      split_ifs
      · exact Moves.pure _
      refine Moves.bind (adoptKnownChain_writes fun b hb => ?_) fun _ s _ =>
        (maybeBroadcastVoteForPreQcTipWith_writes (castVote_writes fuel)).thenPure s
      obtain ⟨parentChain, -, -, hparent, -, -, -, rfl⟩ := competingChain_eq_some hcandidate
      rcases List.mem_append.1 hb with hb | hb
      · exact .inl (Node.buildParentChainForBlock_known hparent hb)
      · obtain rfl := List.mem_singleton.1 hb
        exact .inr (.inl hblock)

/-! ## Accepting blocks -/

/-- A block that is being dealt with is put next to the chain. -/
theorem addOrphan_unwatched {block : Block} (hblock : block ∈ O.blocks) (n : Node) :
    Unwatched E O n (n.addOrphan block) := by
  refine .of_blocks rfl rfl rfl (List.Subset.refl _) fun b hb => ?_
  rcases Node.mem_knownBlocks.1 hb with hb | hb | hb
  · exact .inl (Node.mem_knownBlocks.2 (.inl hb))
  · exact .inl (Node.mem_knownBlocks.2 (.inr (.inl hb)))
  · rcases List.mem_append.1 hb with hb | hb
    · exact .inl (Node.mem_knownBlocks.2 (.inr (.inr hb)))
    · obtain rfl := List.mem_singleton.1 hb
      exact .inr (.inl hblock)

theorem acceptCompetingBlock_writes {block : Block} (hblock : block ∈ O.blocks) :
    Always (Writes E O) (acceptCompetingBlock E fuel block) := by
  have hrest : Always (Writes E O) (do
      maybeBroadcastVoteForCompetingBlock E fuel block
      let _ ← maybeFinalizeQuorumCertificate E fuel block.blockHash
      let adopted ← maybeAdoptPreferredCompetingBranch E fuel block
      let n ← Proc.get
      if (adopted || n.ledger.snapshot.tipHash == block.blockHash) = true then
        pure BlockAcceptance.accepted
      else pure BlockAcceptance.orphan) :=
    (maybeBroadcastVoteForCompetingBlock_writes fuel block).bind fun _ =>
      (maybeFinalizeQuorumCertificate_writes fuel _).bind fun _ =>
        (maybeAdoptPreferredCompetingBranch_writes fuel hblock).bind fun _ =>
          .read fun _ => .ite (.pure _) (.pure _)
  have himport (direct : Bool) : Always (Writes E O) (do
      importBufferedProposalVotesForBlock E fuel block
      if direct = true then
        let _ ← maybeAdoptBetterUncertifiedChildForCertifiedHead E fuel
        pure ()
      else pure ()
      let n ← Proc.get
      if (direct && n.ledger.snapshot.tipHash == block.blockHash) = true then pure .accepted
      else do
        maybeBroadcastVoteForCompetingBlock E fuel block
        let _ ← maybeFinalizeQuorumCertificate E fuel block.blockHash
        let adopted ← maybeAdoptPreferredCompetingBranch E fuel block
        let n ← Proc.get
        if (adopted || n.ledger.snapshot.tipHash == block.blockHash) = true then
          pure BlockAcceptance.accepted
        else pure BlockAcceptance.orphan) := by
    have htail : Always (Writes E O) (do
        let n ← Proc.get
        if (direct && n.ledger.snapshot.tipHash == block.blockHash) = true then pure .accepted
        else do
          maybeBroadcastVoteForCompetingBlock E fuel block
          let _ ← maybeFinalizeQuorumCertificate E fuel block.blockHash
          let adopted ← maybeAdoptPreferredCompetingBranch E fuel block
          let n ← Proc.get
          if (adopted || n.ledger.snapshot.tipHash == block.blockHash) = true then
            pure BlockAcceptance.accepted
          else pure BlockAcceptance.orphan) := .read fun _ => .ite (.pure _) hrest
    exact (importBufferedVotes_writes fuel block).bind fun _ =>
      .ite ((maybeAdoptBetterUncertifiedChild_writes fuel).bind fun _ => htail) htail
  exact .read fun n => .ite (himport _) <| .bind (Writes.quiet (addOrphan_unwatched hblock)) fun _ =>
    (Writes.store _).bind fun _ => himport _

theorem supportPendingChild_writes (block : Block) :
    Always (Writes E O) (supportPendingChild E fuel block) := by
  have hfinal : Always (Writes E O) (maybeFinalizeQuorumCertificate E fuel block.blockHash >>=
    fun _ => Pure.pure ()) := (maybeFinalizeQuorumCertificate_writes fuel _).thenPure
  exact .read fun _ => .unlessM <| (importBufferedVotes_writes fuel block).bind fun _ =>
    .read fun _ => .ite ((castVote_writes fuel block).bind fun _ => hfinal) hfinal

theorem acceptAboveCertifiedHead_writes {block : Block} (hblock : block ∈ O.blocks)
    (hvalid : validateReceivedBlock E block = .ok ()) :
    Always (Writes E O) (acceptAboveCertifiedHead E fuel block) := by
  have hsupport : Always (Writes E O) (do
      supportPendingChild E fuel block
      let _ ← maybeAdoptBetterUncertifiedChildForCertifiedHead E fuel
      let n ← Proc.get
      if n.ledger.snapshot.tipHash = block.blockHash then pure BlockAcceptance.accepted
      else pure BlockAcceptance.orphan) :=
    (supportPendingChild_writes fuel block).bind fun _ =>
      (maybeAdoptBetterUncertifiedChild_writes fuel).bind fun _ =>
        .read fun _ => .ite (.pure _) (.pure _)
  exact .read fun _ => .ite (.pure _) <| .ite
    (.ite hsupport (.bind (Writes.modify fun _ => .pending block hvalid (.inl hblock)) fun _ => hsupport))
    (.ite (.pure _) (.bind (Writes.quiet (addOrphan_unwatched hblock)) fun _ => .pure _))

theorem extendedBy_unwatched {block : Block} (hblock : block ∈ O.blocks) (ledger : LedgerState)
    (n : Node) : Unwatched E O n (n.extendedBy ledger block) := by
  refine .of_blocks rfl rfl rfl (List.Subset.refl _) fun b hb => ?_
  rcases Node.mem_knownBlocks.1 hb with hb | hb
  · rcases List.mem_append.1 hb with hb | hb
    · exact .inl (Node.mem_knownBlocks.2 (.inl hb))
    · obtain rfl := List.mem_singleton.1 hb
      exact .inr (.inl hblock)
  · exact .inl (Node.mem_knownBlocks.2 (.inr hb))

theorem acceptExtension_writes {block : Block} (hblock : block ∈ O.blocks) (ledger : LedgerState) :
    Always (Writes E O) (acceptExtension E fuel block ledger) :=
  .bind (Writes.quiet (extendedBy_unwatched hblock ledger)) fun _ => (Writes.store _).bind fun _ =>
    (Writes.store _).bind fun _ => (importCommitmentReceipts_writes _).bind fun _ =>
      (importBufferedVotes_writes fuel block).bind fun _ =>
        (maybeFinalizeQuorumCertificate_writes fuel _).bind fun _ =>
          .bind (Writes.aside fun _ => rfl) fun _ => .bind (Writes.note rfl) fun _ =>
            (castVote_writes fuel block).bind fun _ => maybePushTipProgress_writes.attempt.thenPure

theorem acceptBlock_writes {block : Block} (hblock : block ∈ O.blocks) (localProposal : Bool) :
    Always (Writes E O) (acceptBlock E fuel block localProposal) :=
  .read fun _ => .ite (.pure _) fun s => Moves.ofExcept_bind fun _ hvalid =>
    Always.ite (acceptCompetingBlock_writes fuel hblock) (.bind (.ofExcept _) fun ledger =>
      .ite (acceptAboveCertifiedHead_writes fuel hblock hvalid)
        (acceptExtension_writes fuel hblock ledger)) s

/-- A block the node knows of is accepted. -/
theorem acceptKnownBlock_writes {block : Block} (hblock : O.Origin n block) (localProposal : Bool) :
    Moves (Writes E O) (acceptBlock E fuel block localProposal) n :=
  Writes.with_block (acceptBlock_writes fuel (O.mem_bring block) localProposal n) hblock

/-- A block that is not a duplicate passed its checks. -/
theorem acceptBlock_valid {block : Block} {localProposal : Bool} {acceptance : BlockAcceptance}
    (hrun : (acceptBlock E fuel block localProposal).run n = .ok acceptance n')
    (hnew : acceptance ≠ .duplicate) : validateReceivedBlock E block = .ok () := by
  unfold acceptBlock at hrun
  rw [Proc.run_get_bind] at hrun
  split_ifs at hrun
  · cases hrun
    exact absurd rfl hnew
  all_goals
    obtain ⟨_, hvalid, -⟩ := Proc.ofExcept_bind_eq_ok hrun
    exact hvalid

theorem takeOrphan_unwatched (index : Nat) (n : Node) :
    Unwatched E O n { n with orphanBlocks := n.orphanBlocks.eraseIdx index } := by
  refine .of_blocks rfl rfl rfl (List.Subset.refl _) fun b hb => .inl (Node.mem_knownBlocks.2 ?_)
  rcases Node.mem_knownBlocks.1 hb with hb | hb | hb
  · exact .inl hb
  · exact .inr (.inl hb)
  · exact .inr (.inr (List.mem_of_mem_eraseIdx hb))

theorem promoteOrphan_writes (index : Nat) : Always (Writes E O) (promoteOrphan E fuel index) :=
  fun n => Moves.read <| by
    split
    · exact Moves.pure _
    · next orphan horphan =>
      refine Writes.assume fun hn => ?_
      have horigin := hn.known orphan
        (Node.mem_knownBlocks.2 (.inr (.inr (List.mem_of_getElem? horphan))))
      refine Moves.bind (Writes.note rfl n) fun _ s hs => ?_
      refine Moves.bind (Moves.modify (Writes.single (.quiet (takeOrphan_unwatched index s))))
        fun _ s' hs' => ?_
      cases hs
      cases hs'
      refine (acceptKnownBlock_writes fuel (horigin.mono ?_) false).attempt.bind fun _ _ _ => Moves.pure _
      exact List.suffix_cons _ _

theorem tryPromoteOrphans_writes (rounds : Nat) :
    Always (Writes E O) (tryPromoteOrphans E fuel rounds) := by
  induction rounds with
  | zero => exact .outOfFuel
  | succ rounds ih =>
    refine .read fun _ => ?_
    split
    · exact .pure _
    · exact (promoteOrphan_writes fuel _).bind fun _ => ih

/-! ## Importing chains -/

theorem importVotesOfChain_writes (votes : List ProposalVote) (applied : List Block) :
    Always (Writes E O) (importVotesOfChain E fuel votes applied) := by
  refine .bind (.forEach fun vote => (importProposalVote_writes fuel vote).attempt.thenPure) fun _ =>
    .bind (.forEach (importBufferedVotes_writes fuel)) fun _ =>
      .bind (Writes.quiet fun _ => .of_votes rfl rfl rfl (.inr fun hn => ⟨?_, ?_, ?_⟩)) fun _ =>
        persistQuorumCertificates_writes
  · exact filter_eq_empty hn.1
  · exact filter_eq_empty hn.2.1
  · exact filter_eq_empty hn.2.2

theorem applyChainSnapshot_writes {chain : ChainSnapshot} (hchain : ∀ b ∈ chain.blocks, b ∈ O.blocks) :
    Always (Writes E O) (applyChainSnapshot E fuel chain) := by
  have hunwatched (ledger : LedgerState) (n : Node) : Unwatched E O n (n.withSnapshot ledger chain) := by
    refine .of_blocks rfl rfl rfl (List.nil_subset _) fun b hb => .inr (.inl (hchain b ?_))
    simpa [Node.mem_knownBlocks, Node.withSnapshot] using hb
  exact .bind (.ofExcept _) fun ledger => .bind (Writes.quiet (hunwatched ledger)) fun _ =>
    .bind (Writes.aside fun _ => rfl) fun _ => (Writes.store _).bind fun _ =>
      (Writes.store _).bind fun _ => (Writes.store _).bind fun _ => (Writes.store _).bind fun _ =>
        importVotesOfChain_writes fuel _ _

/-- A node that finds its own chain too short for a segment stops. -/
theorem slicePrefix_writes (blocks : List Block) (len : Nat) :
    Always (Writes E O) (slicePrefix blocks len) := .ite (.pure _) .panic

theorem syncRepairBaseForSegment_writes (chain : ChainSegment) :
    Always (Writes E O) (syncRepairBaseForSegment E chain) := .read fun _ => by
  split
  · exact .pure _
  · exact .ite (.bind (slicePrefix_writes _ _) fun _ => .bind (.ofExcept _) fun _ => .pure _) (.pure _)

theorem applyChainSegment_writes {chain : ChainSegment} (hchain : ∀ b ∈ chain.blocks, b ∈ O.blocks) :
    Always (Writes E O) (applyChainSegment E fuel chain) := fun n => by
  refine Moves.bind (syncRepairBaseForSegment_writes chain n) fun ⟨base, snapshot⟩ s hrun =>
    Moves.ofExcept_bind fun aligned haligned => Moves.ofExcept_bind fun _ hreceipts => ?_
  obtain ⟨rfl, hbase⟩ := syncRepairBaseForSegment_run hrun
  have hvalid := (validateSnapshotReceipts_ok.1 hreceipts).1.valid
  have hstore : Always (Writes E O) (Proc.forEach aligned.receipts fun receipt => do
      let _ ← storeReceipt E receipt
      pure ()) := fun n => Moves.forEach fun receipt hmem s _ =>
    (storeReceipt_writes fun _ => .inr (.inl (hvalid receipt hmem))).thenPure s
  have hunwatched (ledger : LedgerState) :
      Unwatched E O s (s.withSegment ledger (base ++ aligned.blocks)) := by
    refine .of_blocks rfl rfl rfl (List.nil_subset _) fun b hb => ?_
    have hb : b ∈ base ++ aligned.blocks := by
      simpa [Node.mem_knownBlocks, Node.withSegment] using hb
    rcases List.mem_append.1 hb with hb | hb
    · exact .inl (Node.mem_knownBlocks.2 (.inl (hbase.block hb)))
    · exact .inr (.inl (hchain b ((alignChainSegment_blocks haligned).1.mem hb)))
  refine Moves.ofExcept_bind fun _ _ => Moves.ofExcept_bind fun ledger _ =>
    Moves.ofExcept_bind fun _ _ => ?_
  refine Moves.bind (Moves.modify (Writes.single (.quiet (hunwatched ledger)))) fun _ s' _ => ?_
  refine Moves.bind (Writes.aside_moves rfl) fun _ s'' _ => ?_
  exact (Writes.store _).bind (fun _ => (Writes.store _).bind fun _ => (Writes.store _).bind fun _ =>
    hstore.bind fun _ => importVotesOfChain_writes fuel _ _) s''

theorem recordStatus_unwatched (n : Node) (v : ValidatorId) (status : PeerSyncStatus) :
    Unwatched E O n (n.recordPeerSyncStatusWithSlot v status) := by
  obtain ⟨statuses, heq, -⟩ := recordPeerSyncStatusWithSlot_eq (n := n) v status
  rw [heq]
  exact .of_scene rfl

theorem recordStatus_writes (v : ValidatorId) (status : PeerSyncStatus) :
    Always (Writes E O) (Proc.modify (·.recordPeerSyncStatusWithSlot v status) : NodeM Unit) :=
  Writes.quiet fun n => recordStatus_unwatched n v status

theorem applyCertifiedSuffix_writes {r : CertifiedSync} (hblocks : ∀ b ∈ r.blocks, b ∈ O.blocks) :
    Always (Writes E O) (applyCertifiedSuffix E fuel r) := fun n => Moves.read <| by
  unfold slicePrefix
  split_ifs
  · refine Moves.bind (Moves.pure _) fun base s hs => ?_
    cases hs
    refine Moves.ofExcept_bind fun ledger _ => Moves.ofExcept_bind fun _ _ => ?_
    refine Moves.bind (Moves.modify (Writes.single (.quiet (recordStatus_unwatched n _ _))))
      fun _ s hs => ?_
    cases hs
    split_ifs
    · exact Moves.pure _
    refine Moves.bind (adoptKnownChain_writes fun block hb => ?_) fun _ s _ => ?_
    · rcases List.mem_append.1 hb with hb | hb
      · obtain ⟨statuses, heq, -⟩ := recordPeerSyncStatusWithSlot_eq (n := n) r.responderId _
        refine .inl (Node.mem_knownBlocks.2 (.inl ?_))
        exact (congrArg Node.blocks heq) ▸ List.mem_of_mem_take hb
      · exact .inr (.inl (hblocks block hb))
    · have hqcs : Always (Writes E O) (Proc.forEach r.qcs fun qc => do
          let _ ← importQuorumCertificate E fuel qc
          pure ()) := .forEach fun _ => (importQuorumCertificate_writes fuel _).thenPure
      have haggregates : Always (Writes E O) (Proc.forEach r.serviceAggregates fun aggregate => do
          let _ ← importServiceAggregate E aggregate
          pure ()) := .forEach fun _ => (importServiceAggregate_writes _).thenPure
      refine Moves.bind (hqcs s) fun _ s' _ => Moves.bind (haggregates s') fun _ s'' _ => ?_
      refine Moves.bind (refreshServiceScores_writes s'') fun _ t _ => ?_
      exact Moves.bind (Writes.aside_moves rfl) fun _ t' _ => Moves.pure _
  · exact Moves.panic

theorem importCertifiedSyncResponse_writes {response : ChunkedSyncResponse}
    (hblocks : ∀ b ∈ (ProtocolMessage.certifiedSyncResponse response).blocks, b ∈ O.blocks) :
    Always (Writes E O) (importCertifiedSyncResponse E fuel response) := by
  unfold importCertifiedSyncResponse
  cases response with
  | unavailable => exact .pure _
  | certified r =>
    exact .ite (.pure _) <| .ite (.throw _) <| .read fun _ => .bind (.ofExcept _) fun _ =>
      .ite (.pure _) <| .ite
        (.bind (Writes.quiet fun n => recordStatus_unwatched n _ _) fun _ => .pure _)
        (applyCertifiedSuffix_writes fuel fun b hb => hblocks b (mem_withoutSharedBlock.1 b hb))

/-! ## Proposing and slot ticks -/

section Slots

theorem run_now (n : Node) : (NodeM.now E).run n =
    .ok (E.clock n.clockReads) { n with clockReads := n.clockReads + 1 } := rfl

theorem slot_of_buildProposal {slot : Slot} {epoch : Epoch} {timestamp : Nat} {block : Block}
    (h : buildProposal E n slot epoch timestamp = .ok block) : block.header.slot = slot := by
  simp only [buildProposal, except_bind_ok] at h
  obtain ⟨_, -, h⟩ := h
  obtain rfl := Except.ok.inj h
  rfl

/-- A checked block that is being dealt with is handed out. -/
theorem broadcastBlock_writes {block : Block} (hvalid : validateReceivedBlock E block = .ok ())
    (hblock : block ∈ O.blocks) : Always (Writes E O) (NodeM.broadcast (.blockProposal block)) :=
  Writes.modify fun _ => .broadcast _ ⟨hvalid, fun _ hb => .inl (List.mem_singleton.1 hb ▸ hblock)⟩

/-- A block of the node's own goes out only after it was accepted, and so checked. -/
theorem acceptProposal_writes {block : Block} (hblock : block ∈ O.blocks) :
    Always (Writes E O) (do
      let acceptance ← acceptBlock E fuel block true
      let n ← Proc.get
      if acceptance = .accepted then do
        tryPromoteOrphans E fuel fuel
        NodeM.broadcast (.blockProposal block)
      else if (acceptance = .orphan && n.isPendingCertifiedHeadBlock block) = true then
        NodeM.broadcast (.blockProposal block)
      else pure ()) := fun n => by
  refine Moves.bind (acceptBlock_writes fuel hblock true n) fun acceptance s hrun => Moves.read ?_
  have hbroadcast (hnew : acceptance ≠ .duplicate) :=
    broadcastBlock_writes (acceptBlock_valid fuel hrun hnew) hblock
  split_ifs with haccepted horphan
  · have hnew : acceptance ≠ .duplicate := by rw [haccepted]; nofun
    exact (tryPromoteOrphans_writes fuel fuel).bind (fun _ => hbroadcast hnew) s
  · have hnew : acceptance ≠ .duplicate := by
      rw [of_decide_eq_true (Bool.and_eq_true_iff.1 horphan).1]
      nofun
    exact hbroadcast hnew s
  · exact Moves.pure _

/-- A slot that was not proposed in before is marked, and one block is built in it. -/
theorem proposeNewBlock_moved {slot : Slot} {epoch : Epoch} (hlive : slot ∈ O.live)
    (hnew : n.lastProposedSlot ≠ some slot) (hproposer : E.consensus.proposerForSlot slot = E.me) :
    ((proposeNewBlock E fuel slot epoch).run { n with lastProposedSlot := some slot }).Moved
      (Writes E O) n := by
  cases hbuilt : buildProposal E { n with lastProposedSlot := some slot } slot epoch
      (E.clock n.clockReads) with
  | error e =>
    have hrun : (proposeNewBlock E fuel slot epoch).run { n with lastProposedSlot := some slot } =
        .err e { n with lastProposedSlot := some slot, clockReads := n.clockReads + 1 } := by
      unfold proposeNewBlock
      rw [Proc.run_get_bind, Proc.run_bind_of_ok (run_now _), hbuilt]
      rfl
    rw [hrun]
    exact fun _ => (Relation.ReflTransGen.single (.passSlot slot hlive hnew)).tail .readClock
  | ok block =>
    have hwrite : Write E O n ({ n with
        lastProposedSlot := some slot
        clockReads := n.clockReads + 1 }.withEffect (.blockBuilt block)) :=
      .propose slot block hlive hnew (slot_of_buildProposal hbuilt) hproposer
    refine Out.Moved.trans (Writes.single hwrite) ?_
    unfold proposeNewBlock
    rw [Proc.run_get_bind, Proc.run_bind_of_ok (run_now _), hbuilt]
    exact Writes.with_block (acceptProposal_writes fuel (O.mem_bring block) _) (.inr (.head _))

theorem startupSyncBlocksProposal_keeps :
    Always (fun n n' => n'.scene = n.scene ∧ n'.lastProposedSlot = n.lastProposedSlot)
      (startupSyncBlocksProposal E) := fun n => Moves.read <| by
  split_ifs
  · exact ⟨rfl, rfl⟩
  · exact ⟨rfl, rfl⟩
  · exact ⟨rfl, rfl⟩
  · exact ⟨rfl, rfl⟩

theorem maybeProposeBlock_writes {slot : Slot} {epoch : Epoch} (hlive : slot ∈ O.live) :
    Always (Writes E O) (maybeProposeBlock E fuel slot epoch) := fun n => Moves.read <| by
  split_ifs with hskip
  · exact Moves.pure _
  simp only [Bool.or_eq_true, not_or] at hskip
  have hbarrier := startupSyncBlocksProposal_keeps (E := E) n
  refine Moves.bind (hbarrier.mono fun s h => Writes.single (.quiet (.of_scene h.1))) fun blocked s hrun => ?_
  have hnew : s.lastProposedSlot ≠ some slot := by
    rw [(hbarrier.ok hrun).2]
    exact fun h => hskip.1.2 (beq_iff_eq.2 h)
  have hproposer : E.consensus.proposerForSlot slot = E.me := by simpa using hskip.2
  split_ifs
  · exact Moves.pure _
  refine Moves.read ?_
  split_ifs
  · exact Moves.pure _
  unfold Moves
  rw [Proc.run_bind_of_ok (Proc.run_modify _ _)]
  cases hchild : s.preferredPendingChildForCertifiedHead with
  | none => exact proposeNewBlock_moved fuel hlive hnew hproposer
  | some child =>
    refine Out.Moved.trans (Writes.single (.passSlot slot hlive hnew)) ?_
    have hmem := (List.mem_filter.1 (maxBy_mem hchild)).1
    refine Writes.assume fun hs => ?_
    have horigin := hs.known child (Node.mem_knownBlocks.2 (.inr (.inl hmem)))
    refine Writes.with_block ?_ horigin
    exact (castVote_writes fuel child).bind
      (fun _ => broadcastBlock_writes (hs.pending child hmem) (O.mem_bring child)) _

theorem broadcastHeartbeat_writes {slot : Slot} {epoch : Epoch} (hlive : slot ∈ O.live) :
    Always (Writes E O) (broadcastHeartbeat E slot epoch) := fun n => Moves.read <| by
  split_ifs with hbeaten
  · exact Moves.pure _
  · exact Writes.single (.beat
      { epoch, slot, sourceValidatorId := E.me, sequenceNumber := slot
        emittedAtUnixMillis := E.clock n.clockReads } hlive hbeaten rfl)

theorem enterEpoch_writes (epoch : Epoch) (isLiveSlot : Bool) :
    Always (Writes E O) (enterEpoch E epoch isLiveSlot) := by
  have hrefresh : Always (Writes E O) (if epoch > 2 then refreshRecentServiceAttestations E epoch
      else Pure.pure ()) := .whenM (refreshRecentAttestations_writes epoch)
  exact .read fun _ => .unlessM <| .bind (Writes.aside fun _ => rfl) fun _ => .whenM <|
    .ite ((requestReceiptReconciliation_writes _).bind fun _ => hrefresh) hrefresh

theorem processSlot_writes {currentSlot : Slot} (slot : Slot) (hlive : currentSlot ∈ O.live) :
    Always (Writes E O) (processSlot E fuel currentSlot slot) := by
  have hlast : Always (Writes E O) (tryPromoteOrphans E fuel fuel) := tryPromoteOrphans_writes fuel fuel
  refine .bind (Writes.aside fun _ => rfl) fun _ => refreshServiceScores_writes.bind fun _ =>
    (enterEpoch_writes _ _).bind fun _ => ?_
  by_cases hcurrent : (slot == currentSlot) = true
  · rw [if_pos hcurrent]
    obtain rfl : slot = currentSlot := beq_iff_eq.1 hcurrent
    have hpropose : Always (Writes E O) (do
        maybeProposeBlock E fuel slot (E.consensus.epochForSlot slot)
        tryPromoteOrphans E fuel fuel) := (maybeProposeBlock_writes fuel hlive).bind fun _ => hlast
    have hrepair : Always (Writes E O) (do
        if E.v2 = true then
          let _ ← maybeRepairStalePendingCertifiedChild E slot
          Pure.pure ()
        else Pure.pure ()
        maybeProposeBlock E fuel slot (E.consensus.epochForSlot slot)
        tryPromoteOrphans E fuel fuel) :=
      .ite ((maybeRepairStalePendingChild_writes slot).bind fun _ => hpropose) hpropose
    exact (broadcastHeartbeat_writes hlive).bind fun _ => .read fun _ =>
      .ite ((maybeBroadcastRecoverySyncStatus_writes slot).bind fun _ =>
        (maybeRequestRecoverySync_writes slot).bind fun _ => hrepair) hrepair
  · rw [if_neg hcurrent]
    exact .pure _

theorem processSlotTick_moves (hlive : E.consensus.slotAt (E.clock n.clockReads) ∈ O.live) :
    Moves (Writes E O) (processSlotTick E fuel) n := by
  refine Moves.bind (Writes.now n) fun t s hrun => Moves.read ?_
  obtain rfl : E.clock n.clockReads = t := by
    cases hrun
    rfl
  exact Always.unlessM (.forEach fun slot => processSlot_writes fuel slot hlive) s

end Slots

/-! ## Messages -/

section Messages
variable (v : ValidatorId)

theorem handleBlockProposal_writes {block : Block} (hblock : block ∈ O.blocks) :
    Always (Writes E O) (handleBlockProposal E fuel v block) := by
  refine (recordStatus_writes _ _).bind fun _ => Always.bind (maybeIssueReceipt_writes _ _ _ _ _ _ _)
    fun _ s => Moves.bind ((acceptBlock_writes fuel hblock false).attempt s) fun result s' hrun => ?_
  have haccepted (acceptance : BlockAcceptance) (hresult : result = .ok acceptance)
      (hnew : acceptance ≠ .duplicate) : validateReceivedBlock E block = .ok () := by
    rw [hresult] at hrun
    exact acceptBlock_valid fuel (Proc.run_of_attempt_ok hrun) hnew
  have hretry : Always (Writes E O) (do
      Proc.modify (·.recordSyncRepairFailure v)
      logged (pushBestSyncTo E v (block.header.blockNumber - 1) block.header.parentHash)
      logged (requestSyncFrom E v)) := .bind (Writes.aside fun _ => rfl) fun _ =>
    (Writes.logged (pushBestSyncTo_writes v _ _)).bind fun _ => Writes.logged (requestSyncFrom_writes v)
  cases result with
  | error e => exact Moves.pure _
  | ok acceptance =>
    cases acceptance with
    | accepted =>
      refine (tryPromoteOrphans_writes fuel fuel).bind (fun _ => ?_) s'
      exact broadcastBlock_writes (haccepted .accepted rfl nofun) hblock
    | orphan =>
      exact Always.read (fun _ => .ite (Writes.logged (requestLegacySyncFrom_writes v)) hretry) s'
    | duplicate => exact Moves.pure _

theorem handleQuorumCertificate_writes (qc : QuorumCertificate) :
    Always (Writes E O) (handleQuorumCertificate E fuel v qc) :=
  .read fun _ => .ite
    ((recordStatus_writes v _).bind fun _ => Writes.logged (requestSyncFrom_writes v))
    ((importQuorumCertificate_writes fuel qc).attempt.bind fun
      | .ok true => announceCertifiedProgress_writes
      | .ok false => .pure _
      | .error _ => .pure _)

theorem handleSyncStatus_writes (status : PeerSyncStatus) :
    Always (Writes E O) (handleSyncStatus E v status) :=
  (recordStatus_writes v status).bind fun _ => .read fun _ =>
    .ite (Writes.logged (requestSyncFrom_writes v))
      (.whenM (Writes.logged (pushBestSyncTo_writes v _ _)))

theorem handleSyncRequest_writes (height : Nat) (tip : HashBytes) :
    Always (Writes E O) (handleSyncRequest E v height tip) := by
  have hserve (throttled : Bool) : Always (Writes E O) (if throttled = true then Pure.pure ()
      else if isForceFullSnapshotHint height tip = true then
        if (E.config.peers.any (·.validatorId == v)) = true then sendFullSnapshotTo E v
        else Proc.throw (.unknownPeer v)
      else do
        recordSyncRequestServed E v height tip
        if E.v2 = true then pushBestSyncTo E v height tip else sendBestSyncTo E v height tip) :=
    .unlessM <| .ite (.ite (sendFullSnapshotTo_writes v) (.throw _)) <|
      (recordSyncRequestServed_writes v height tip).bind fun _ =>
        .ite (pushBestSyncTo_writes v height tip) (sendBestSyncTo_writes v height tip)
  exact .bind (Writes.quiet fun n => recordStatus_unwatched n _ _) fun _ =>
    .ite (.bind (.pure _) hserve) (.bind (syncRequestIsThrottled_writes v height tip) hserve)

theorem afterSyncApplied_writes : Always (Writes E O) (afterSyncApplied E fuel v) :=
  (tryPromoteOrphans_writes fuel fuel).bind fun _ => .bind (Writes.aside fun _ => rfl) fun _ =>
    .read fun _ => .ite
      ((requestSyncFrom_writes v).bind fun _ => Writes.logged maybePushTipProgress_writes)
      (Writes.logged maybePushTipProgress_writes)

theorem handleSyncResponse_writes {chain : ChainSnapshot} (hchain : ∀ b ∈ chain.blocks, b ∈ O.blocks) :
    Always (Writes E O) (handleSyncResponse E fuel v chain) :=
  (recordStatus_writes v _).bind fun _ => .read fun _ => .ite
    ((applyChainSnapshot_writes fuel hchain).attempt.bind fun
      | .ok _ => afterSyncApplied_writes fuel v
      | .error _ => .pure _)
    (.whenM (Writes.logged (pushBestSyncTo_writes v _ _)))

theorem handleSyncBlocks_writes {chain : ChainSegment} (hchain : ∀ b ∈ chain.blocks, b ∈ O.blocks) :
    Always (Writes E O) (handleSyncBlocks E fuel v chain) :=
  (recordStatus_writes v _).bind fun _ => .read fun _ => .unlessM <|
    (applyChainSegment_writes fuel hchain).attempt.bind fun
      | .ok _ => afterSyncApplied_writes fuel v
      | .error _ => .bind (Writes.aside fun _ => rfl) fun _ => Writes.logged (requestSyncFrom_writes v)

theorem handleCertifiedSyncResponse_writes {response : ChunkedSyncResponse}
    (hblocks : ∀ b ∈ (ProtocolMessage.certifiedSyncResponse response).blocks, b ∈ O.blocks) :
    Always (Writes E O) (handleCertifiedSyncResponse E fuel v response) :=
  (importCertifiedSyncResponse_writes fuel hblocks).attempt.bind fun
    | .ok .applied => (tryPromoteOrphans_writes fuel fuel).bind fun _ =>
      announceCertifiedProgress_writes
    | .ok (.ignored reason) => Writes.logged (followUpIgnored_writes v reason)
    | .error _ => .bind (Writes.aside fun _ => rfl) fun _ =>
      Writes.logged (requestBestExcluding_writes _).thenPure

/-- The receipts handed out on request are those of the store. -/
theorem handleReceiptFetch_moves (epoch : Epoch) (w : ValidatorId)
    (hheld : ∀ receipt ∈ n.receipts, receipt ∈ O.held) :
    Moves (Writes E O) (handleReceiptFetch E v epoch w) n := Moves.read <| by
  refine Writes.sendTo v (fun _ => ?_) rfl n
  exact ⟨rfl, fun receipt hr => hheld receipt (List.mem_of_mem_filter hr)⟩

end Messages

/-! ## Events -/

/-- The receipts a message brings, alone or in a list. -/
def ProtocolMessage.receipts : ProtocolMessage → List RelayReceipt
  | .relayReceipt receipt => [receipt]
  | .receiptResponse _ _ _ receipts => receipts
  | _ => []

theorem dispatchMessage_writes {payload : ProtocolMessage} (sender : ValidatorId)
    (hheld : ∀ receipt ∈ n.receipts, receipt ∈ O.held)
    (harrived : ∀ receipt ∈ payload.receipts, receipt ∈ O.arrived)
    (hblocks : ∀ block ∈ payload.blocks, block ∈ O.blocks) :
    Moves (Writes E O) (dispatchMessage E fuel sender payload) n := by
  cases payload with
  | transactionBroadcast tx => exact Writes.logged (handleTransaction_writes tx sender false) n
  | blockProposal block => exact handleBlockProposal_writes fuel sender (hblocks block (.head _)) n
  | proposalVote vote =>
    exact Always.whenM (Writes.logged (importProposalVote_writes fuel vote).thenPure) n
  | quorumCertificate qc => exact Always.whenM (handleQuorumCertificate_writes fuel sender qc) n
  | syncStatus v _ _ _ _ _ _ => exact handleSyncStatus_writes v _ n
  | syncRequest v height tip => exact handleSyncRequest_writes v height tip n
  | syncResponse v chain => exact handleSyncResponse_writes fuel v hblocks n
  | syncBlocks v chain => exact handleSyncBlocks_writes fuel v hblocks n
  | certifiedSyncRequest request =>
    exact Always.whenM (handleCertifiedSyncRequest_writes request) n
  | certifiedSyncResponse response =>
    exact Always.whenM (handleCertifiedSyncResponse_writes fuel sender hblocks) n
  | heartbeatPulse pulse => exact maybeIssueReceipt_writes _ _ _ _ _ _ _ n
  | relayReceipt receipt =>
    refine Moves.bind (storeReceipt_writes (fun _ => .inl (harrived receipt (.head _))) n)
      fun isNew s hrun => ?_
    cases isNew with
    | false => exact Moves.pure _
    | true =>
      have hmay := storeReceipt_true hrun
      exact Moves.modify (Writes.single (.broadcast _ (Writes.maySay hmay rfl)))
  | serviceAttestation a => exact Always.whenM (handleServiceAttestation_writes a) n
  | serviceAggregate a => exact Always.whenM (handleServiceAggregate_writes a) n
  | receiptFetch v epoch w => exact handleReceiptFetch_moves v epoch w hheld
  | receiptResponse _ _ _ receipts =>
    exact Moves.forEach fun receipt hmem s _ =>
      (storeReceipt_writes fun _ => .inl (harrived receipt hmem)).thenPure s

/-- The rate limit does not look at the receipts. -/
theorem allowPeerMessage_receipts (v : ValidatorId) (payload : ProtocolMessage) (n : Node) :
    Proc.Keeps Node.receipts (allowPeerMessage E v payload) n := by
  unfold allowPeerMessage
  split
  · rfl
  · rfl

/-- What an event allows in a state. -/
def Occasion.of (E : Env) (n : Node) : Event → Occasion
  | .slotTick =>
    { live := {E.consensus.slotAt (E.clock n.clockReads)}, blocks := {b | b ∈ n.knownBlocks} }
  | .received _ payload =>
    { held := {r | r ∈ n.receipts}, arrived := {r | r ∈ payload.receipts}
      blocks := {b | b ∈ n.knownBlocks ∨ b ∈ payload.blocks} }
  | _ => { blocks := {b | b ∈ n.knownBlocks} }

/-- **Handling an event is a chain of writes.** -/
theorem handleEvent_writes (event : Event) :
    Moves (Writes E (.of E n event)) (handleEvent E fuel event) n := by
  cases event with
  | slotTick => exact processSlotTick_moves fuel rfl
  | inboxTick files =>
    exact Always.bind (.ofExcept _) (fun _ => .forEach fun _ =>
      (handleTransaction_writes _ _ true).attempt.thenPure) n
  | metricsTick => exact refreshServiceScores_writes n
  | syncTick => exact Always.whenM runSyncMaintenance_writes n
  | received sender payload =>
    refine Moves.bind (Writes.aside_moves rfl) fun _ s hs => ?_
    cases hs
    refine Moves.bind (allowPeerMessage_writes sender payload _) fun allowed s hrun => ?_
    have hkept := (allowPeerMessage_receipts sender payload _).ok hrun
    have hreceipts : s.receipts = n.receipts := hkept
    split_ifs
    · refine dispatchMessage_writes fuel sender (fun receipt hr => ?_) (fun _ hr => hr)
        fun _ hb => .inr hb
      rw [hreceipts] at hr
      exact hr
    · exact Moves.pure _
  | sessionObserved peer outbound serviceAccountable =>
    exact Always.whenM (handleSessionObserved_writes peer) n
  | sessionFailed peer outbound serviceAccountable faultInjected =>
    refine Moves.bind (Writes.aside_moves rfl) fun _ s _ => ?_
    cases peer with
    | none => exact Moves.pure _
    | some peer =>
      refine Always.whenM (processedSlot_writes.thenPure.bind fun _ => Writes.aside fun m => ?_) s
      unfold recordFailedSession
      split_ifs <;> rfl
  | inboundSessionDropped => exact Moves.pure _

end Closed

end Entangrid
