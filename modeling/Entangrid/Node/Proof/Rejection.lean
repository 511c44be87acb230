import Entangrid.Node.Proof.PlainBlocks
import Entangrid.Node.Proof.Replay

/-!
# Rejected blocks

`accept_block` stores a block whose parent is not the tip before it looks at its execution, and with
`consensus_v2` the checks that follow fail with the block in the store. Where every known block executes,
nothing fails after a block is stored: every chain the node may adopt replays, the certificates it builds
are well formed, its own votes pass their checks and its exports succeed. The errors that are left are those
of the checks that come first. Without `consensus_v2` nothing follows that could fail.

* `rejected_blocks_leave_no_trace`: what that means for the runs in which the blocks that arrive beside
  the tip execute.
* `leavesNoTrace_iff`: which blocks leave a trace, among those without votes.
* `rejected_block_stays`: a rival block with a wrong state root is rejected and stays in the store.
-/

namespace Entangrid

open LedgerState
open Proc (Moves FailsOnly NeverFails Infallible)

variable {E : Env} {S : Set Block} {block : Block} {n n' : Node}

/-! ## Adopting chains -/

theorem adoptCanonicalChain_neverFails {chain : List Block} {ledger : LedgerState}
    (h : replayBlocks E.hashing E.crypto E.genesis chain = .ok ledger) :
    NeverFails (adoptCanonicalChain E chain) n := by
  intro e n' hrun
  rw [run_adoptCanonicalChain h] at hrun
  cases hrun

namespace ReplayInv

variable (h : ReplayInv E S n)
include h

theorem adoptBuilt_neverFails {tip : HashBytes} {chain : List Block}
    (hchain : n.buildChainToTip tip = some chain) : NeverFails (adoptCanonicalChain E chain) n :=
  (h.replays hchain).elim fun _ hledger => adoptCanonicalChain_neverFails hledger

theorem announce_neverFails : NeverFails (announceCertifiedProgress E) n :=
  (Sends.of_replay.announceCertifiedProgress h.replay).failsOnly

theorem maybeAdoptCertifiedBranch_neverFails (tip : HashBytes) :
    NeverFails (maybeAdoptCertifiedBranch E tip) n := FailsOnly.read <| by
  split
  · exact .pure _
  · next chain hchain =>
    exact (h.adoptBuilt_neverFails (certifiedBranchCandidate_eq_some hchain).1).thenPure

theorem maybeBuildQc_neverFails (hS : CollisionFree E.hashing S) (blockHash : HashBytes) :
    NeverFails (maybeBuildQc E blockHash) n := FailsOnly.read <| by
  split
  · exact .pure _
  · split
    · exact .pure _
    · next qc hqc =>
      have hformed := (h.toCertInv.assembledQc_valid hS hqc).1
      refine .ite (fun hbad => by simp [hformed] at hbad) fun _ => ?_
      intro e n' hrun
      cases hrun

end ReplayInv

/-! ## The voting cycle -/

/-- A vote the cycle casts for a block of `S` does not fail. -/
structure CastsSafely (E : Env) (S : Set Block) (castVote : Block → NodeM Unit) : Prop where
  stepwise : ∀ block, Stepwise E blockless (castVote block)
  neverFails : ∀ block, Sound E.hashing S block → ∀ n, ReplayInv E S n → NeverFails (castVote block) n

section Cycle
variable {castVote : Block → NodeM Unit} (hcast : CastsSafely E S castVote)
  (hS : CollisionFree E.hashing S) (h : ReplayInv E S n)
include hcast hS h

theorem maybeAdoptBetterUncertifiedChildWith_neverFails :
    NeverFails (maybeAdoptBetterUncertifiedChildWith E castVote) n := FailsOnly.read <| by
  split
  · exact .pure _
  · next best chain hbetter =>
    obtain ⟨hbest, hchain⟩ := betterUncertifiedChild_eq_some hbetter
    refine (h.adoptBuilt_neverFails hchain).bind fun _ n₁ hrun => ?_
    have h₁ := h.acts hS ((adoptCanonicalChain_moves (.betterChild hbetter)).ok hrun)
    have hmem : best ∈ n.knownBlocks := (List.mem_filter.1 (maxBy_mem hbest)).1
    exact (hcast.neverFails best (h.known best hmem) n₁ h₁).thenPure

omit hS in
theorem maybeBroadcastLocalVoteForCurrentPreQcTipWith_neverFails :
    NeverFails (maybeBroadcastLocalVoteForCurrentPreQcTipWith E castVote) n :=
  FailsOnly.read <| .ite (fun _ => .pure _) fun _ => by
    split
    · next tip htip =>
      exact hcast.neverFails tip (h.soundChain tip (List.mem_of_getLast? htip)) n h
    · exact .pure _

theorem maybeAdoptVoteSupportedBranchWith_neverFails (tip : HashBytes) :
    NeverFails (maybeAdoptVoteSupportedBranchWith E castVote tip) n := FailsOnly.read <| by
  split
  · exact .pure _
  · next chain hchain =>
    obtain ⟨-, -, hbuilt, -⟩ := voteSupportedCandidate_eq_some hchain
    refine (h.adoptBuilt_neverFails hbuilt).bind fun _ n₁ hrun => ?_
    have h₁ := h.acts hS ((adoptCanonicalChain_moves (.voteSupported tip hchain)).ok hrun)
    exact (maybeBroadcastLocalVoteForCurrentPreQcTipWith_neverFails hcast h₁).thenPure

theorem maybeFinalizeQuorumCertificateWith_neverFails (blockHash : HashBytes) :
    NeverFails (maybeFinalizeQuorumCertificateWith E castVote blockHash) n := by
  refine .read ((h.maybeBuildQc_neverFails hS blockHash).bind fun built n₁ hrun => ?_)
  have h₁ := h.acts hS ((maybeBuildQc_stepwise blockHash n).ok hrun)
  cases built with
  | none => exact .pure _
  | some qc =>
    refine (h₁.maybeAdoptCertifiedBranch_neverFails qc.blockHash).bind fun _ n₂ hrun => ?_
    have h₂ := h₁.acts hS ((maybeAdoptCertifiedBranch_stepwise qc.blockHash n₁).ok hrun)
    refine (maybeAdoptBetterUncertifiedChildWith_neverFails hcast hS h₂).bind fun _ n₃ hrun => ?_
    have h₃ := h₂.acts hS ((maybeAdoptBetterUncertifiedChildWith_stepwise hcast.stepwise n₂).ok hrun)
    refine .ite (fun _ => ?_) fun _ => .pure _
    have hsent : ReplayInv E S (n₃.withEffect (.broadcast (.quorumCertificate qc))) :=
      h₃.acts hS fun _ => .single (.emit _ fun _ _ => .inl trivial)
    exact FailsOnly.modify_bind hsent.announce_neverFails.thenPure

theorem advanceAfterVoteWith_neverFails (blockHash : HashBytes) :
    NeverFails (advanceAfterVoteWith E castVote blockHash) n := by
  refine (maybeFinalizeQuorumCertificateWith_neverFails hcast hS h blockHash).bind
    fun built n₁ hrun => ?_
  have h₁ := h.acts hS ((maybeFinalizeQuorumCertificateWith_stepwise hcast.stepwise blockHash n).ok hrun)
  cases built with
  | some qc => exact .pure _
  | none => exact (maybeAdoptVoteSupportedBranchWith_neverFails hcast hS h₁ blockHash).thenPure

end Cycle

/-! ## The node's own votes -/

/-- Storing a vote fails on a conflict only. -/
theorem storeVote_failsOnly {existing : Node → Option ProposalVote} {vote : ProposalVote}
    {add : Node → Node} : FailsOnly (· = .conflictingProposalVote) (do
      resolveConflictingProposalVote E vote
      let n ← Proc.get
      storeVoteUnlessHeld E (existing n) vote add) n := by
  refine FailsOnly.bind (fun e n' hrun => ?_) fun _ n₁ _ => .read ?_
  · rw [run_resolveConflictingProposalVote] at hrun
    cases hc : n.conflictingVotes E vote with
    | ok conflicts =>
      rw [hc] at hrun
      cases hrun
    | error e' =>
      rw [hc] at hrun
      cases hrun
      unfold Node.conflictingVotes at hc
      dsimp only at hc
      split_ifs at hc
      exact (Except.error.inj hc).symm
  · unfold storeVoteUnlessHeld
    cases existing n₁ with
    | some held => exact .ite (fun _ => .pure _) fun _ => .throw rfl
    | none => exact .modify_bind (.pure _)

section
variable (hS : CollisionFree E.hashing S) (h : ReplayInv E S n)
include hS h

/-- The import of a vote that passes its checks against a block of `S` fails on a conflict only. -/
theorem importProposalVoteWith_failsOnly {castVote : Block → NodeM Unit}
    (hcast : CastsSafely E S castVote) (hv2 : E.v2 = true) (hblock : Sound E.hashing S block)
    {vote : ProposalVote} (hhash : vote.blockHash = block.blockHash)
    (hvalid : validateProposalVoteForBlock E vote block = .ok ()) :
    FailsOnly (· = .conflictingProposalVote) (importProposalVoteWith E castVote vote) n := by
  obtain ⟨_, hsigner, hrest⟩ := except_bind_ok.1 hvalid
  obtain ⟨_, hpolicy, -⟩ := except_bind_ok.1 hrest
  refine .ite (fun hv1 => by simp [hv2] at hv1) fun _ => ?_
  refine .ofExcept_bind (fun e he => by simp [hsigner] at he) fun _ _ =>
    .ofExcept_bind (fun e he => by simp [hpolicy] at he) fun _ _ => .read ?_
  split
  · exact storeVote_failsOnly
  · next known hknown =>
    obtain ⟨hmem, hhash'⟩ := Node.knownBlock_eq_some hknown
    have hheader := hS.header_eq (h.known known hmem) hblock (hhash'.trans hhash)
    have hvalid' : validateProposalVoteForBlock E vote known = .ok () :=
      (validateProposalVoteForBlock_congr hheader).trans hvalid
    refine .ite (fun _ => .pure _) fun _ =>
      .ofExcept_bind (fun e he => by simp [hvalid'] at he) fun _ _ => ?_
    refine storeVote_failsOnly.bind fun inserted n₁ hrun => ?_
    have hstored : Acts E blockless n n₁ :=
      (storeProposalVote_moves (A := blockless) hknown hvalid' (.inl trivial)).ok hrun
    have h₁ := h.acts hS hstored
    refine FailsOnly.ite (fun _ => ?_) fun _ => .pure _
    exact (advanceAfterVoteWith_neverFails hcast hS h₁ vote.blockHash).thenPure.mono fun _ => False.elim

variable (hsigns : SignsCorrectly E) (hme : E.me ∈ genesisIds E)
include hsigns hme

theorem maybeBroadcastLocalProposalVoteWith_neverFails {castVote : Block → NodeM Unit}
    (hcast : CastsSafely E S castVote) (hblock : Sound E.hashing S block) :
    NeverFails (maybeBroadcastLocalProposalVoteWith E castVote block) n := by
  obtain ⟨vote, hbuild, hvalid⟩ := hsigns.ownVote hme block
  refine .ite (fun _ => .pure _) fun hv2 =>
    .ofExcept_bind (fun e he => by simp [hbuild] at he) fun vote' hvote' => ?_
  obtain rfl : vote = vote' := Except.ok.inj (hbuild.symm.trans hvote')
  refine FailsOnly.modify_bind (.read (.ite (fun _ => .pure _) fun _ => ?_))
  have hsigned : ReplayInv E S (n.withEffect (.voteSigned vote)) :=
    h.acts hS fun _ => .single (.emit _ ⟨block, hbuild⟩)
  refine (importProposalVoteWith_failsOnly hS hsigned hcast (by simpa using hv2) hblock
    (buildLocalProposalVote_blockHash hbuild) hvalid).attempt_bind (fun imported n₁ _ => ?_)
    fun e n₁ he => ?_
  · exact .ite (fun _ e n' hrun => by cases hrun) fun _ => .pure _
  · subst he
    exact .ite (fun _ => .pure _) fun hother => absurd (by decide +kernel) hother

end

section
variable (hS : CollisionFree E.hashing S) (hsigns : SignsCorrectly E) (hme : E.me ∈ genesisIds E)
include hS hsigns hme

theorem castsSafely (fuel : Nat) : CastsSafely E S (maybeBroadcastLocalProposalVote E fuel) := by
  induction fuel with
  | zero => exact ⟨castVote_stepwise 0, fun _ _ _ _ => .outOfFuel⟩
  | succ fuel ih =>
    refine ⟨castVote_stepwise (fuel + 1), fun block hblock n h => ?_⟩
    exact maybeBroadcastLocalProposalVoteWith_neverFails hS h hsigns hme ih hblock

variable (fuel : Nat) (h : ReplayInv E S n)
include h

theorem maybeFinalizeQuorumCertificate_neverFails (blockHash : HashBytes) :
    NeverFails (maybeFinalizeQuorumCertificate E fuel blockHash) n :=
  maybeFinalizeQuorumCertificateWith_neverFails (castsSafely hS hsigns hme fuel) hS h blockHash

theorem maybeAdoptBetterUncertifiedChild_neverFails :
    NeverFails (maybeAdoptBetterUncertifiedChildForCertifiedHead E fuel) n :=
  maybeAdoptBetterUncertifiedChildWith_neverFails (castsSafely hS hsigns hme fuel) hS h

theorem castVote_neverFails (hblock : Sound E.hashing S block) :
    NeverFails (maybeBroadcastLocalProposalVote E fuel block) n :=
  (castsSafely hS hsigns hme fuel).neverFails block hblock n h

end

/-! ## Blocks beside the tip -/

/-- The chain of a competing block that executes replays. -/
theorem ReplayInv.competingChain_ok (h : ReplayInv E S n) (hexec : Executes E S block) :
    ∃ candidate, competingChain E n block = .ok candidate := by
  unfold competingChain
  cases hparent : n.buildParentChainForBlock block with
  | none => exact ⟨none, rfl⟩
  | some parentChain =>
    have hmem (b : Block) (hb : b ∈ parentChain) : b ∈ n.knownBlocks :=
      Node.buildParentChainForBlock_known hparent hb
    have hsound (b : Block) (hb : b ∈ parentChain) := h.known b (hmem b hb)
    have hlinked := linked_of_buildParentChain hparent
    obtain ⟨ledger, hledger⟩ := replayBlocks_of_executes (HashChain.linkedFrom_append.1 hlinked).1
      hsound fun b hb => h.executes.known b (hmem b hb)
    obtain ⟨next, hnext⟩ := hexec parentChain ledger hsound hlinked hledger
    dsimp only
    split_ifs
    · exact ⟨none, rfl⟩
    · exact ⟨_, except_bind_ok.2 ⟨ledger, hledger, except_bind_ok.2 ⟨next, hnext, rfl⟩⟩⟩

/-- A known block next to those of the node: what is known after it was taken in. -/
theorem ReplayInv.addOrphan (hS : CollisionFree E.hashing S) (h : ReplayInv E S n)
    (hnew : n.knownBlock block.blockHash = none) (hvalid : validateReceivedBlock E block = .ok ())
    (hblock : Sound E.hashing S block) (hexec : Executes E S block) :
    ReplayInv E S (n.addOrphan block) := by
  refine h.takes hS hblock hexec (.addOrphan block hnew hvalid ⟨trivial, .inl rfl⟩) fun b hb => ?_
  simpa [Node.addOrphan, Node.knownBlocks, or_assoc] using hb

theorem ReplayInv.addPendingChild (hS : CollisionFree E.hashing S) (h : ReplayInv E S n)
    (hnew : n.knownBlock block.blockHash = none) (hvalid : validateReceivedBlock E block = .ok ())
    (hblock : Sound E.hashing S block) (hexec : Executes E S block)
    (hchild : n.isDirectChildOfCurrentCertifiedHead block = true) :
    ReplayInv E S (n.addPendingChild block) := by
  refine h.takes hS hblock hexec (.addPending block hnew hvalid ⟨trivial, .inl rfl⟩ hchild)
    fun b hb => ?_
  simp only [Node.addPendingChild, Node.mem_knownBlocks, List.mem_append, List.mem_singleton] at hb ⊢
  tauto

theorem ReplayInv.extended {ledger : LedgerState} (hS : CollisionFree E.hashing S)
    (h : ReplayInv E S n) (hnew : n.knownBlock block.blockHash = none)
    (hvalid : validateReceivedBlock E block = .ok ()) (hblock : Sound E.hashing S block)
    (hparent : block.header.parentHash = n.ledger.snapshot.tipHash)
    (happly : n.ledger.applyBlock E.hashing E.crypto block = .ok ledger)
    (hhead : n.certifiedHeadOnlyActive E = false ∨ n.hasQc block.blockHash = true) :
    ReplayInv E S (n.extended ledger block) := by
  refine h.takes hS hblock (h.executes_of_extends hS hparent happly)
    (.extend block hnew hvalid ⟨trivial, .inl rfl⟩ hparent happly hhead trivial) fun b hb => ?_
  simp only [Node.extended, Node.written, Node.withEffect, Node.extendedBy, Node.mem_knownBlocks,
    List.mem_append, List.mem_singleton] at hb ⊢
  tauto

section
variable (hS : CollisionFree E.hashing S) (hsigns : SignsCorrectly E) (hme : E.me ∈ genesisIds E)
  (fuel : Nat) (h : ReplayInv E S n) (hblock : Sound E.hashing S block)
include hS hsigns hme h hblock

theorem maybeBroadcastVoteForCompetingBlock_neverFails (hexec : Executes E S block) :
    NeverFails (maybeBroadcastVoteForCompetingBlock E fuel block) n := by
  obtain ⟨candidate, hcandidate⟩ := h.competingChain_ok hexec
  obtain ⟨canVote, hcan⟩ : ∃ canVote, canVoteForCompetingBlock E n block = .ok canVote := by
    unfold canVoteForCompetingBlock
    rw [hcandidate]
    cases candidate with
    | none => exact ⟨false, rfl⟩
    | some chain => exact ⟨_, rfl⟩
  refine .ite (fun _ => .pure _) fun _ =>
    .read (.ofExcept_bind (fun e he => by simp [hcan] at he) fun _ _ => ?_)
  exact .ite (fun _ => castVote_neverFails hS hsigns hme fuel h hblock) fun _ => .pure _

theorem maybeAdoptPreferredCompetingBranch_neverFails (hvalid : validateReceivedBlock E block = .ok ())
    (hexec : Executes E S block) :
    NeverFails (maybeAdoptPreferredCompetingBranch E fuel block) n := by
  obtain ⟨candidate, hcandidate⟩ := h.competingChain_ok hexec
  refine .read (.ite (fun _ => .pure _) fun hactive =>
    .ofExcept_bind (fun e he => by simp [hcandidate] at he) fun candidate' hcandidate' => ?_)
  cases candidate' with
  | none => exact .pure _
  | some chain =>
    refine FailsOnly.ite (fun _ => .pure _) fun hbetter => ?_
    obtain ⟨parentChain, ledger, next, hparent, -, hledger, hnext, rfl⟩ :=
      competingChain_eq_some hcandidate'
    have hreplay : replayBlocks E.hashing E.crypto E.genesis (parentChain ++ [block]) = .ok next := by
      rw [replayBlocks, applyBlocks_append hledger, applyBlocks, hnext]
      rfl
    refine (adoptCanonicalChain_neverFails hreplay).bind fun _ n₁ hrun => ?_
    rw [run_adoptCanonicalChain hreplay] at hrun
    cases hrun
    simp only [Bool.or_eq_true, Bool.not_eq_true', not_or, Bool.not_eq_true, Bool.not_eq_false]
      at hactive
    have hadopted : ReplayInv E S (n.adopted E next (parentChain ++ [block])) := by
      refine h.takes hS hblock hexec (.adopt (.competing hvalid ⟨trivial, .inl rfl⟩ hactive.2 hactive.1
        hcandidate' (by simpa using hbetter)) hreplay) fun b hb => ?_
      rcases Node.mem_knownBlocks.1 hb with hb | hb | hb
      · rcases List.mem_append.1 hb with hb | hb
        · exact .inl (Node.buildParentChainForBlock_known hparent hb)
        · exact .inr (List.mem_singleton.1 hb)
      · cases hb
      · have hold := (List.mem_filter.1 hb).1
        simp only [List.mem_append] at hold
        exact .inl (Node.mem_knownBlocks.2 (by tauto))
    exact (maybeBroadcastLocalVoteForCurrentPreQcTipWith_neverFails (castsSafely hS hsigns hme fuel)
      hadopted).thenPure

theorem acceptCompetingBlock_neverFails (hnew : n.knownBlock block.blockHash = none)
    (hvalid : validateReceivedBlock E block = .ok ()) (hexec : Executes E S block) :
    NeverFails (acceptCompetingBlock E fuel block) n := FailsOnly.read <| by
  have horphan : hasBlock n.orphanBlocks block.blockHash = false :=
    hasBlock_eq_false.2 fun b hb =>
      Node.knownBlock_eq_none.1 hnew b (Node.mem_knownBlocks.2 (.inr (.inr hb)))
  simp only [horphan, Bool.false_eq_true, if_false]
  have h₀ := h.addOrphan hS hnew hvalid hblock hexec
  have hrest : ∀ m, ReplayInv E S m → NeverFails (do
      maybeBroadcastVoteForCompetingBlock E fuel block
      let _ ← maybeFinalizeQuorumCertificate E fuel block.blockHash
      let adopted ← maybeAdoptPreferredCompetingBranch E fuel block
      let n ← Proc.get
      if (adopted || n.ledger.snapshot.tipHash == block.blockHash) = true then
        pure BlockAcceptance.accepted
      else pure BlockAcceptance.orphan) m := fun m hm => by
    refine (maybeBroadcastVoteForCompetingBlock_neverFails hS hsigns hme fuel hm hblock hexec).bind
      fun _ m₁ hrun => ?_
    have h₁ := hm.acts hS ((maybeBroadcastVoteForCompetingBlock_stepwise fuel block m).ok hrun)
    refine (maybeFinalizeQuorumCertificate_neverFails hS hsigns hme fuel h₁ block.blockHash).bind
      fun _ m₂ hrun => ?_
    have h₂ := h₁.acts hS ((maybeFinalizeQuorumCertificate_stepwise fuel block.blockHash m₁).ok hrun)
    refine (maybeAdoptPreferredCompetingBranch_neverFails hS hsigns hme fuel h₂ hblock hvalid hexec).bind
      fun _ m₃ _ => .read ?_
    exact .ite (fun _ => .pure _) fun _ => .pure _
  refine FailsOnly.modify_bind (FailsOnly.bind (Infallible.modify _).failsOnly fun _ n₁ hrun => ?_)
  have h₁ := h₀.acts hS ((Stepwise.store (.appendOrphan block) rfl).moves.ok hrun)
  refine (importBufferedProposalVotesForBlock_infallible fuel block).failsOnly.bind fun _ n₂ hrun => ?_
  have h₂ := h₁.acts hS ((importBufferedProposalVotesForBlock_stepwise fuel block n₁).ok hrun)
  split_ifs
  · refine (maybeAdoptBetterUncertifiedChild_neverFails hS hsigns hme fuel h₂).bind
      fun _ n₃ hrun => .read ?_
    have h₃ := h₂.acts hS ((maybeAdoptBetterUncertifiedChild_stepwise fuel n₂).ok hrun)
    exact .ite (fun _ => .pure _) fun _ => hrest n₃ h₃
  · exact .read (.ite (fun _ => .pure _) fun _ => hrest n₂ h₂)

/-! ## Blocks on the tip -/

theorem supportPendingChild_neverFails : NeverFails (supportPendingChild E fuel block) n := by
  have hfinal (m : Node) (hm : ReplayInv E S m) :
      NeverFails (maybeFinalizeQuorumCertificate E fuel block.blockHash >>= fun _ => pure ()) m :=
    (maybeFinalizeQuorumCertificate_neverFails hS hsigns hme fuel hm block.blockHash).thenPure
  refine .read (.ite (fun _ => .pure _) fun _ => ?_)
  refine (importBufferedProposalVotesForBlock_infallible fuel block).failsOnly.bind
    fun _ n₁ hrun => .read ?_
  have h₁ := h.acts hS ((importBufferedProposalVotesForBlock_stepwise fuel block n).ok hrun)
  refine FailsOnly.ite (fun _ => ?_) fun _ => hfinal n₁ h₁
  refine (castVote_neverFails hS hsigns hme fuel h₁ hblock).bind fun _ n₂ hrun => ?_
  exact hfinal n₂ (h₁.acts hS ((castVote_stepwise fuel block n₁).ok hrun))

theorem acceptAboveCertifiedHead_neverFails (hnew : n.knownBlock block.blockHash = none)
    (hvalid : validateReceivedBlock E block = .ok ()) (hexec : Executes E S block) :
    NeverFails (acceptAboveCertifiedHead E fuel block) n := by
  have hsupport (m : Node) (hm : ReplayInv E S m) : NeverFails (do
      supportPendingChild E fuel block
      let _ ← maybeAdoptBetterUncertifiedChildForCertifiedHead E fuel
      let n ← Proc.get
      if n.ledger.snapshot.tipHash = block.blockHash then pure BlockAcceptance.accepted
      else pure BlockAcceptance.orphan) m := by
    refine (supportPendingChild_neverFails hS hsigns hme fuel hm hblock).bind fun _ m₁ hrun => ?_
    have h₁ := hm.acts hS ((supportPendingChild_stepwise fuel block m).ok hrun)
    refine (maybeAdoptBetterUncertifiedChild_neverFails hS hsigns hme fuel h₁).bind
      fun _ m₂ _ => .read ?_
    exact .ite (fun _ => .pure _) fun _ => .pure _
  refine .read (.ite (fun _ => .pure _) fun _ => .ite (fun hchild => ?_) fun _ => ?_)
  · refine FailsOnly.ite (fun _ => hsupport n h) fun _ => FailsOnly.modify_bind ?_
    exact hsupport _ (h.addPendingChild hS hnew hvalid hblock hexec hchild)
  · exact FailsOnly.ite (fun _ => .pure _) fun _ => .modify_bind (.pure _)

theorem acceptExtension_neverFails {ledger : LedgerState} (hnew : n.knownBlock block.blockHash = none)
    (hvalid : validateReceivedBlock E block = .ok ())
    (hparent : block.header.parentHash = n.ledger.snapshot.tipHash)
    (happly : n.ledger.applyBlock E.hashing E.crypto block = .ok ledger)
    (hhead : n.certifiedHeadOnlyActive E = false ∨ n.hasQc block.blockHash = true) :
    NeverFails (acceptExtension E fuel block ledger) n := by
  have hextended := h.extended hS hnew hvalid hblock hparent happly hhead
  refine FailsOnly.modify_bind (FailsOnly.modify_bind (FailsOnly.modify_bind ?_))
  refine FailsOnly.bind (fun e n' hrun => ?_) fun _ n₀ hrun => ?_
  · rw [run_importCommitmentReceipts] at hrun
    cases hrun
  have hmem : block ∈ (n.extended ledger block).blocks := List.mem_append_right _ (by simp)
  have h₀ : ReplayInv E S n₀ := by
    have hreceipts : (importCommitmentReceipts E block.commitmentReceipts).run
        (n.extended ledger block) = .ok () n₀ := hrun
    rw [run_importCommitmentReceipts] at hreceipts
    cases hreceipts
    exact hextended.acts hS fun _ => .single (.commitmentReceipts block hmem)
  refine (importBufferedProposalVotesForBlock_infallible fuel block).failsOnly.bind
    fun _ n₁ hrun => ?_
  have h₁ := h₀.acts hS ((importBufferedProposalVotesForBlock_stepwise fuel block n₀).ok hrun)
  refine (maybeFinalizeQuorumCertificate_neverFails hS hsigns hme fuel h₁ block.blockHash).bind
    fun _ n₂ hrun => ?_
  have h₂ := h₁.acts hS ((maybeFinalizeQuorumCertificate_stepwise fuel block.blockHash n₁).ok hrun)
  refine FailsOnly.modify_bind (FailsOnly.modify_bind ?_)
  refine (castVote_neverFails hS hsigns hme fuel (h₂.cleared block.transactions _) hblock).bind
    fun _ n₃ _ => ?_
  exact (Infallible.attempt _).failsOnly.bind fun _ _ _ => .pure _

end

/-! ## Rejections -/

/-- Where `accept_block` rejects the block, it has not changed anything. -/
def LeavesNoTrace (E : Env) (n : Node) (block : Block) : Prop :=
  ∀ fuel e n', (acceptBlock E fuel block false).run n = .err e n' →
    n' = n ∧ ∀ b ∈ n'.knownBlocks, b.blockHash ≠ block.blockHash

/-- An error of `accept_block` comes from the checks that are made before anything is stored, if the rest
does not fail. -/
theorem acceptBlock_error_of {fuel : Nat}
    (hcompeting : n.knownBlock block.blockHash = none → validateReceivedBlock E block = .ok () →
      block.header.parentHash ≠ n.ledger.snapshot.tipHash → NeverFails (acceptCompetingBlock E fuel block) n)
    (habove : n.knownBlock block.blockHash = none → validateReceivedBlock E block = .ok () →
      block.header.parentHash = n.ledger.snapshot.tipHash → ∀ ledger,
      n.ledger.applyBlock E.hashing E.crypto block = .ok ledger → n.certifiedHeadOnlyActive E = true →
      NeverFails (acceptAboveCertifiedHead E fuel block) n)
    (hextends : n.knownBlock block.blockHash = none → validateReceivedBlock E block = .ok () →
      block.header.parentHash = n.ledger.snapshot.tipHash → ∀ ledger,
      n.ledger.applyBlock E.hashing E.crypto block = .ok ledger →
      n.certifiedHeadOnlyActive E = false ∨ n.hasQc block.blockHash = true →
      NeverFails (acceptExtension E fuel block ledger) n)
    {e : Error} (hrun : (acceptBlock E fuel block false).run n = .err e n') :
    n' = n ∧ n.knownBlock block.blockHash = none ∧ (validateReceivedBlock E block = .ok () →
      block.header.parentHash = n.ledger.snapshot.tipHash ∧
        validateExtension E n block false = .error e) := by
  unfold acceptBlock at hrun
  rw [Proc.run_get_bind] at hrun
  by_cases hknown : (n.knownBlock block.blockHash).isSome
  · rw [if_pos hknown] at hrun
    cases hrun
  rw [if_neg hknown] at hrun
  have hnew : n.knownBlock block.blockHash = none := by simpa using hknown
  cases hvalid : validateReceivedBlock E block with
  | error e' =>
    rw [hvalid] at hrun
    cases hrun
    exact ⟨rfl, hnew, nofun⟩
  | ok u =>
    rw [NodeM.check, Proc.run_ofExcept_bind_of_ok hvalid] at hrun
    by_cases hparent : block.header.parentHash = n.ledger.snapshot.tipHash
    · rw [if_neg (by simpa using hparent)] at hrun
      cases hextension : validateExtension E n block false with
      | error e' =>
        rw [hextension] at hrun
        cases hrun
        exact ⟨rfl, hnew, fun _ => ⟨hparent, rfl⟩⟩
      | ok ledger =>
        rw [NodeM.check, Proc.run_ofExcept_bind_of_ok hextension] at hrun
        obtain ⟨-, -, happly⟩ := except_bind_ok.1 hextension
        split_ifs at hrun with hactive
        · rw [Bool.and_eq_true] at hactive
          exact (habove hnew hvalid hparent ledger happly hactive.1 e n' hrun).elim
        · have hhead : n.certifiedHeadOnlyActive E = false ∨ n.hasQc block.blockHash = true := by
            cases hh : n.certifiedHeadOnlyActive E with
            | false => exact .inl rfl
            | true => exact .inr (by simpa [hh] using hactive)
          exact (hextends hnew hvalid hparent ledger happly hhead e n' hrun).elim
    · rw [if_pos hparent] at hrun
      exact (hcompeting hnew hvalid hparent e n' hrun).elim

section
variable (hS : CollisionFree E.hashing S) (hsigns : SignsCorrectly E) (hme : E.me ∈ genesisIds E)
  (h : ReplayInv E S n) (hblock : block ∈ S)
include hS hsigns hme h hblock

/-- Where every known block executes, only a block beside the tip can fail after it was stored. -/
theorem acceptBlock_error {fuel : Nat} (hcompeting : n.knownBlock block.blockHash = none →
      validateReceivedBlock E block = .ok () → block.header.parentHash ≠ n.ledger.snapshot.tipHash →
      NeverFails (acceptCompetingBlock E fuel block) n)
    {e : Error} (hrun : (acceptBlock E fuel block false).run n = .err e n') :
    n' = n ∧ n.knownBlock block.blockHash = none ∧ (validateReceivedBlock E block = .ok () →
      block.header.parentHash = n.ledger.snapshot.tipHash ∧
        validateExtension E n block false = .error e) := by
  have hsound (hvalid : validateReceivedBlock E block = .ok ()) : Sound E.hashing S block :=
    ⟨hblock, hashed_of_validateReceivedBlock hvalid⟩
  refine acceptBlock_error_of hcompeting (fun hnew hvalid hparent ledger happly _ => ?_)
    (fun hnew hvalid hparent ledger happly hhead => ?_) hrun
  · exact acceptAboveCertifiedHead_neverFails hS hsigns hme fuel h (hsound hvalid) hnew hvalid
      (h.executes_of_extends hS hparent happly)
  · exact acceptExtension_neverFails hS hsigns hme fuel h (hsound hvalid) hnew hvalid hparent happly
      hhead

omit hsigns hme hblock in
/-- A block whose competing chain replays executes. -/
theorem executes_of_competes {chain : List Block}
    (hcompetes : competingChain E n block = .ok (some chain)) : Executes E S block := by
  obtain ⟨parentChain, ledger, next, hparent, -, hledger, hnext, -⟩ := competingChain_eq_some hcompetes
  exact .of_chain hS (fun b hb => h.known b (Node.buildParentChainForBlock_known hparent hb))
    (linked_of_buildParentChain hparent) hledger hnext

end

/-! ## Without votes -/

section
variable (hv1 : E.v2 = false) (hvalidators : E.genesis.validators ≠ [])
include hv1

theorem castVote_neverFails_plain (fuel : Nat) (block : Block) :
    NeverFails (maybeBroadcastLocalProposalVote E fuel block) n := by
  cases fuel with
  | zero => exact .outOfFuel
  | succ fuel =>
    rw [castVote_plain hv1]
    exact .pure _

include hvalidators

theorem Inert.acceptExtension_neverFails (h : Inert n) (fuel : Nat) (block : Block)
    (ledger : LedgerState) : NeverFails (acceptExtension E fuel block ledger) n := by
  have hextended : Placed ledger (n.shelves.extended block) (n.extended ledger block) :=
    ⟨rfl, rfl, h.of_ballots rfl⟩
  refine FailsOnly.modify_bind (FailsOnly.modify_bind (FailsOnly.modify_bind ?_))
  have hreceipts : Proc.Ends (Placed ledger (n.shelves.extended block)) (fun _ => False)
      (importCommitmentReceipts E block.commitmentReceipts) (n.extended ledger block) := by
    unfold Proc.Ends
    rw [run_importCommitmentReceipts]
    exact hextended.keep rfl
  refine .bind_ends hreceipts fun _ _ h =>
    .bind_ends (h.importBufferedProposalVotesForBlock_ends fuel block) fun _ _ h =>
      .bind_ends (h.maybeFinalizeQuorumCertificate_ends hvalidators fuel _) fun _ _ _ => ?_
  refine FailsOnly.modify_bind (FailsOnly.modify_bind ?_)
  refine (castVote_neverFails_plain hv1 fuel block).bind fun _ _ _ => ?_
  exact (Infallible.attempt _).failsOnly.bind fun _ _ _ => .pure _

/-- Without `consensus_v2` nothing can fail once a block was stored. -/
theorem acceptBlock_error_plain (h : Inert n) {fuel : Nat} {e : Error}
    (hrun : (acceptBlock E fuel block false).run n = .err e n') :
    n' = n ∧ n.knownBlock block.blockHash = none ∧ (validateReceivedBlock E block = .ok () →
      block.header.parentHash = n.ledger.snapshot.tipHash ∧
        validateExtension E n block false = .error e) := by
  refine acceptBlock_error_of (fun hnew _ _ => ?_) (fun _ _ _ _ _ hactive => ?_)
    (fun _ _ _ ledger _ _ => ?_) hrun
  · have hplaced : Placed n.ledger n.shelves n := .of_node h
    obtain ⟨m, hstored, -⟩ := hplaced.run_acceptCompetingBlock hvalidators hv1
      (hplaced.knownBlock_eq_none.1 hnew) fuel
    intro e m' hfails
    rw [hstored] at hfails
    cases hfails
  · rw [h.certifiedHeadOnlyActive] at hactive
    cases hactive
  · exact h.acceptExtension_neverFails hv1 hvalidators fuel block ledger

end

/-! ## Blocks nobody voted for -/

namespace Node

section
variable (h : n'.knownBlocks = n.knownBlocks ++ [block])
include h

/-- The last of the known blocks is found under its own hash, the others as before. -/
theorem blockByHash_of_append (k : HashBytes) : n'.blockByHash k =
    if block.blockHash = k then some block else n.blockByHash k := by
  simp only [blockByHash, h, List.reverse_append, List.reverse_singleton, List.singleton_append,
    findBlock, List.find?_cons]
  by_cases hk : block.blockHash = k
  · simp [hk]
  · simp [beq_false_of_ne hk, hk]

/-- A new block is not on the chain to its parent. -/
theorem buildParentChain_of_append (hnew : n.knownBlock block.blockHash = none) :
    n'.buildParentChainForBlock block = n.buildParentChainForBlock block := by
  have hfind (b : Block) (hne : b.blockHash ≠ block.blockHash) :
      n'.blockByHash b.blockHash = n.blockByHash b.blockHash := by
    rw [blockByHash_of_append h, if_neg fun heq => hne heq.symm]
  have hsame : n'.buildChainToTip block.header.parentHash =
      n.buildChainToTip block.header.parentHash := by
    ext chain
    constructor
    · intro hchain
      have hpath := (buildChainToTip_iff.1 hchain).1
      obtain ⟨-, hnumbered, htip⟩ := buildChainToTip_eq_some hchain
      rw [← htip]
      refine buildChainToTip_of_numbered hnumbered fun b hb => ?_
      obtain ⟨hne, hfound, hreaches⟩ := hpath.mem blockHash_of_blockByHash hb
      refine ⟨hne, ?_⟩
      rw [← hfind b fun heq => ?_]
      · exact hfound
      -- the block would lead back to its parent
      rw [heq] at hreaches hne
      have hlinks : BackWalk.Links n'.blockByHash (·.header.parentHash) empty_hash block.blockHash
          block.header.parentHash := ⟨hne, block, by rw [blockByHash_of_append h, if_pos rfl], rfl⟩
      exact hpath.acyclic (Relation.TransGen.tail' hreaches hlinks)
    · intro hchain
      obtain ⟨hmem, hnumbered, htip⟩ := buildChainToTip_eq_some hchain
      rw [← htip]
      refine buildChainToTip_of_numbered hnumbered fun b hb => ?_
      obtain ⟨hne, hfound⟩ := (buildChainToTip_distinct hchain).2 b hb
      exact ⟨hne, (hfind b (knownBlock_eq_none.1 hnew b (hmem b hb))).trans hfound⟩
  unfold buildParentChainForBlock
  rw [hsame]

end

/-- The block among the orphans, in memory and on disk. -/
def keptBeside (n : Node) (block : Block) : Node := (n.addOrphan block).written (.appendOrphan block)

theorem keptBeside_knownBlocks : (n.keptBeside block).knownBlocks = n.knownBlocks ++ [block] := by
  simp [keptBeside, written, withEffect, addOrphan, knownBlocks]

end Node

/-- Nobody voted for the block, as far as the node has heard. -/
structure Unvoted (n : Node) (blockHash : HashBytes) : Prop where
  votes : n.proposalVotes[blockHash]? = none
  buffered : n.bufferedProposalVotes[blockHash]? = none
  certificate : n.quorumCertificates[blockHash]? = none

namespace Unvoted

variable (h : Unvoted n block.blockHash)
include h

theorem keptBeside : Unvoted (n.keptBeside block) block.blockHash := ⟨h.votes, h.buffered, h.certificate⟩

theorem run_importBufferedProposalVotesForBlock (fuel : Nat) :
    (importBufferedProposalVotesForBlock E fuel block).run n = .ok () n := by
  unfold importBufferedProposalVotesForBlock
  rw [Proc.run_get_bind, h.buffered]
  rfl

theorem run_maybeBuildQc : (maybeBuildQc E block.blockHash).run n = .ok none n := by
  have hassembled : assembledQc E n block.blockHash = none := by
    unfold assembledQc
    rw [h.votes]
    cases n.knownBlock block.blockHash <;> rfl
  unfold maybeBuildQc
  rw [Proc.run_get_bind, h.certificate]
  dsimp only
  rw [hassembled]
  rfl

end Unvoted

section
variable (hnew : n.knownBlock block.blockHash = none) (hunvoted : Unvoted n block.blockHash)
  (hchild : n.isDirectChildOfCurrentCertifiedHead block = false) (fuel : Nat)
include hnew hunvoted hchild

/-- Such a block is stored, and then looked at. -/
theorem run_acceptCompetingBlock_unvoted : (acceptCompetingBlock E fuel block).run n = (do
    maybeBroadcastVoteForCompetingBlock E fuel block
    let _ ← maybeFinalizeQuorumCertificate E fuel block.blockHash
    let adopted ← maybeAdoptPreferredCompetingBranch E fuel block
    let n ← Proc.get
    if adopted || n.ledger.snapshot.tipHash == block.blockHash then pure .accepted
    else pure .orphan : NodeM BlockAcceptance).run (n.keptBeside block) := by
  have horphans : hasBlock n.orphanBlocks block.blockHash = false := by
    rw [hasBlock_eq_false]
    intro b hb
    exact Node.knownBlock_eq_none.1 hnew b (Node.mem_knownBlocks.2 (.inr (.inr hb)))
  unfold acceptCompetingBlock
  rw [Proc.run_get_bind, hchild, horphans]
  simp only [Bool.false_eq_true, if_false, Bool.false_and]
  exact Proc.run_bind_of_ok (s := n.keptBeside block)
    (hunvoted.keptBeside.run_importBufferedProposalVotesForBlock fuel)

omit hunvoted hchild in
theorem competingChain_keptBeside :
    competingChain E (n.keptBeside block) block = competingChain E n block := by
  have hparent : (n.keptBeside block).buildParentChainForBlock block = n.buildParentChainForBlock block :=
    Node.buildParentChain_of_append Node.keptBeside_knownBlocks hnew
  unfold competingChain
  rw [hparent]
  rfl

/-- **A block that does not replay on its parent's chain is rejected, and stays.** -/
theorem run_acceptCompetingBlock_error (hv2 : E.v2 = true) {e : Error}
    (hcompeting : competingChain E n block = .error e) :
    (acceptCompetingBlock E fuel block).run n = .err e (n.keptBeside block) := by
  rw [run_acceptCompetingBlock_unvoted hnew hunvoted hchild]
  have hcan : canVoteForCompetingBlock E (n.keptBeside block) block = .error e := by
    unfold canVoteForCompetingBlock
    rw [competingChain_keptBeside hnew, hcompeting]
    rfl
  have hvote : (maybeBroadcastVoteForCompetingBlock E fuel block).run (n.keptBeside block) =
      .err e (n.keptBeside block) := by
    unfold maybeBroadcastVoteForCompetingBlock
    rw [if_neg (by simp [hv2]), Proc.run_get_bind, hcan]
    rfl
  rw [Proc.run_bind, hvote]

/-- A block whose parent's chain is not known, or passes by the certified head, waits. -/
theorem acceptCompetingBlock_neverFails_of_none (hcompeting : competingChain E n block = .ok none) :
    NeverFails (acceptCompetingBlock E fuel block) n := by
  have hkept : competingChain E (n.keptBeside block) block = .ok none :=
    (competingChain_keptBeside hnew).trans hcompeting
  have hcan : canVoteForCompetingBlock E (n.keptBeside block) block = .ok false := by
    unfold canVoteForCompetingBlock
    rw [hkept]
    rfl
  have hvote : (maybeBroadcastVoteForCompetingBlock E fuel block).run (n.keptBeside block) =
      .ok () (n.keptBeside block) := by
    unfold maybeBroadcastVoteForCompetingBlock
    split_ifs
    · rfl
    · rw [Proc.run_get_bind, hcan]
      rfl
  have hfinalize := run_maybeFinalizeQuorumCertificate_of_none
    (hunvoted.keptBeside.run_maybeBuildQc (E := E)) fuel
  have hadopt : (maybeAdoptPreferredCompetingBranch E fuel block).run (n.keptBeside block) =
      .ok false (n.keptBeside block) := by
    unfold maybeAdoptPreferredCompetingBranch
    rw [Proc.run_get_bind]
    split_ifs
    · rfl
    · rw [hkept]
      rfl
  intro e n' hrun
  rw [run_acceptCompetingBlock_unvoted hnew hunvoted hchild, Proc.run_bind_of_ok hvote,
    Proc.run_bind_of_ok hfinalize, Proc.run_bind_of_ok hadopt, Proc.run_get_bind] at hrun
  split_ifs at hrun <;> cases hrun

end

/-! ## Runs -/

section
variable (hme : E.me ∈ genesisIds E) (hn : Reachable E (SafelyArrives E S) n)
  (horderly : E.v2 = true → Orderly E S n)
include hme hn

theorem Reachable.inert_of_validator (hv1 : E.v2 = false) : Inert n := by
  refine hn.inert hv1 fun hnone => ?_
  simp [genesisIds, hnone] at hme

include horderly

/-- An error of `accept_block` comes from the checks that are made first. -/
theorem acceptBlock_error_of_safe {fuel : Nat} (hblock : E.v2 = true → block ∈ S)
    (hcompeting : E.v2 = true → n.knownBlock block.blockHash = none →
      validateReceivedBlock E block = .ok () → block.header.parentHash ≠ n.ledger.snapshot.tipHash →
      NeverFails (acceptCompetingBlock E fuel block) n)
    {e : Error} (hrun : (acceptBlock E fuel block false).run n = .err e n') :
    n' = n ∧ n.knownBlock block.blockHash = none ∧ (validateReceivedBlock E block = .ok () →
      block.header.parentHash = n.ledger.snapshot.tipHash ∧
        validateExtension E n block false = .error e) := by
  cases hv2 : E.v2 with
  | false =>
    refine acceptBlock_error_plain hv2 (fun hnone => ?_) (hn.inert_of_validator hme hv2) hrun
    simp [genesisIds, hnone] at hme
  | true =>
    have h := horderly hv2
    exact acceptBlock_error h.hashes h.signs hme (h.replayInv hv2 hn) (hblock hv2) (hcompeting hv2) hrun

theorem acceptCompetingBlock_neverFails_of_safe (hv2 : E.v2 = true) (hblock : block ∈ S)
    (hnew : n.knownBlock block.blockHash = none) (hvalid : validateReceivedBlock E block = .ok ())
    (hexec : Executes E S block) (fuel : Nat) : NeverFails (acceptCompetingBlock E fuel block) n := by
  have h := horderly hv2
  exact acceptCompetingBlock_neverFails h.hashes h.signs hme fuel (h.replayInv hv2 hn)
    ⟨hblock, hashed_of_validateReceivedBlock hvalid⟩ hnew hvalid hexec

/-- **Where nobody voted for the block, it leaves a trace exactly if the chain to it is known and does not
replay.** -/
theorem leavesNoTrace_iff (hblock : E.v2 = true → block ∈ S) (hunvoted : Unvoted n block.blockHash)
    (hchild : n.isDirectChildOfCurrentCertifiedHead block = false) : LeavesNoTrace E n block ↔
      (E.v2 = true → n.knownBlock block.blockHash = none → validateReceivedBlock E block = .ok () →
        block.header.parentHash ≠ n.ledger.snapshot.tipHash →
          ∃ candidate, competingChain E n block = .ok candidate) := by
  constructor
  · intro hnotrace hv2 hnew hvalid hparent
    cases hcompeting : competingChain E n block with
    | ok candidate => exact ⟨candidate, rfl⟩
    | error e =>
      exfalso
      have hrun : (acceptBlock E 0 block false).run n = .err e (n.keptBeside block) := by
        rw [← run_acceptCompetingBlock_error hnew hunvoted hchild 0 hv2 hcompeting]
        unfold acceptBlock
        rw [Proc.run_get_bind, if_neg (by simp [hnew]), NodeM.check,
          Proc.run_ofExcept_bind_of_ok hvalid, if_pos hparent]
      exact (hnotrace 0 e _ hrun).2 block (by simp [Node.keptBeside_knownBlocks]) rfl
  · intro hcompetes fuel e n' hrun
    obtain ⟨rfl, hnew, -⟩ := acceptBlock_error_of_safe hme hn horderly hblock
      (fun hv2 hnew hvalid hparent => by
        obtain ⟨candidate, hcandidate⟩ := hcompetes hv2 hnew hvalid hparent
        cases candidate with
        | none => exact acceptCompetingBlock_neverFails_of_none hnew hunvoted hchild fuel hcandidate
        | some chain =>
          have h := horderly hv2
          exact acceptCompetingBlock_neverFails_of_safe hme hn horderly hv2 (hblock hv2) hnew hvalid
            (executes_of_competes h.hashes (h.replayInv hv2 hn) hcandidate) fuel) hrun
    exact ⟨rfl, Node.knownBlock_eq_none.1 hnew⟩

end

/-- **Rejected blocks leave no trace**, in every run in which, with `consensus_v2`, the gossiped blocks that
pass the first checks execute unless they are on the tip. A block that is rejected under this condition is
not stored and the state is what it was; where nobody voted for it and it is no child of the certified
head, that holds exactly if its chain is not known or replays; the child that is chosen on a certified head
executes; and a valid block that executes is not rejected. -/
theorem rejected_blocks_leave_no_trace (E : Env) (S : Set Block) (hme : E.me ∈ genesisIds E) (n : Node)
    (hn : Reachable E (SafelyArrives E S) n) (horderly : E.v2 = true → Orderly E S n) :
    (∀ block, (E.v2 = true → block ∈ S ∧ (validateReceivedBlock E block = .ok () →
      block.header.parentHash ≠ n.ledger.snapshot.tipHash → Executes E S block)) →
      LeavesNoTrace E n block) ∧
    (∀ block, (E.v2 = true → block ∈ S) → Unvoted n block.blockHash →
      n.isDirectChildOfCurrentCertifiedHead block = false → (LeavesNoTrace E n block ↔
        (E.v2 = true → n.knownBlock block.blockHash = none → validateReceivedBlock E block = .ok () →
          block.header.parentHash ≠ n.ledger.snapshot.tipHash →
            ∃ candidate, competingChain E n block = .ok candidate))) ∧
    (∀ child, n.bestKnownUncertifiedChildForCertifiedHead = some child → Executes E S child) ∧
    ∀ block, validateReceivedBlock E block = .ok () →
      (block.header.parentHash = n.ledger.snapshot.tipHash →
        ∃ next, n.ledger.applyBlock E.hashing E.crypto block = .ok next) →
      (E.v2 = true → block ∈ S ∧ (block.header.parentHash ≠ n.ledger.snapshot.tipHash →
        Executes E S block)) →
      ∀ fuel e n', (acceptBlock E fuel block false).run n ≠ .err e n' := by
  refine ⟨fun block hsafe fuel e n' hrun => ?_, fun block hblock => ?_, fun child hchild => ?_,
    fun block hvalid happlies hsafe fuel e n' hrun => ?_⟩
  · obtain ⟨rfl, hnew, -⟩ := acceptBlock_error_of_safe hme hn horderly (fun hv2 => (hsafe hv2).1)
      (fun hv2 hnew hvalid hparent => acceptCompetingBlock_neverFails_of_safe hme hn horderly hv2
        (hsafe hv2).1 hnew hvalid ((hsafe hv2).2 hvalid hparent) fuel) hrun
    exact ⟨rfl, Node.knownBlock_eq_none.1 hnew⟩
  · exact leavesNoTrace_iff hme hn horderly hblock
  · cases hv2 : E.v2 with
    | false =>
      have hchild := List.mem_filter.1 (maxBy_mem hchild)
      simp [(hn.inert_of_validator hme hv2).isDirectChild] at hchild
    | true =>
      exact ((horderly hv2).replayInv hv2 hn).executes.known child
        (List.mem_filter.1 (maxBy_mem hchild)).1
  · obtain ⟨-, -, hcause⟩ := acceptBlock_error_of_safe hme hn horderly (fun hv2 => (hsafe hv2).1)
      (fun hv2 hnew _ hparent => acceptCompetingBlock_neverFails_of_safe hme hn horderly hv2
        (hsafe hv2).1 hnew hvalid ((hsafe hv2).2 hparent) fuel) hrun
    obtain ⟨hparent, hextension⟩ := hcause hvalid
    obtain ⟨next, happly⟩ := happlies hparent
    have hproposer := proposer_of_validateReceivedBlock hvalid
    rw [validateExtension_received hproposer hparent happly] at hextension
    cases hextension

/-! ## A run -/

/-- A block with the state root of an empty ledger, where no transaction asks for one. -/
def brokenBlock (blockNumber : Nat) (parentHash : HashBytes) (slot : Slot) : Block :=
  let C := (sampleEnv 1).consensus
  signedBlock blockNumber parentHash slot (C.epochForSlot slot) (C.proposerForSlot slot) []
    ⟨{ (LedgerState.fromGenesis sampleGenesis).snapshot with balances := ∅ }⟩

/-- A broken block beside the first one, and one on top of the second. -/
def brokenRival : Block := brokenBlock 1 empty_hash 1

def brokenChild : Block := brokenBlock 3 secondBlock.blockHash 2

def thirdBlock : Block := emptyBlock 3 secondBlock.blockHash 2

/-- The blocks of the run, and those that are offered after it. -/
def offeredBlocks : List Block := [firstBlock, secondBlock, thirdBlock, brokenChild, brokenRival]

theorem collisionFree_offered : CollisionFree rollingHashing {b | b ∈ offeredBlocks} :=
  .of_nodup (by decide +kernel) (by decide +kernel)

/-- The first two blocks replay. -/
theorem second_block_executes : Executes (sampleEnv 1) {b | b ∈ offeredBlocks} secondBlock := by
  have hreplay : (replayBlocks rollingHashing sampleCrypto sampleGenesis
      [firstBlock, secondBlock]).toOption.isSome = true := by decide +kernel
  obtain ⟨ledger, hledger⟩ := Option.isSome_iff_exists.1 hreplay
  have hlinked : Linked empty_hash [firstBlock, secondBlock] := ⟨rfl, rfl, trivial⟩
  have hhashed : ∀ b ∈ [firstBlock, secondBlock], blockBodyHash rollingHashing b = b.blockHash := by
    decide +kernel
  have hoffered : [firstBlock, secondBlock] <+: offeredBlocks := List.prefix_append _ _
  exact .of_mem (E := sampleEnv 1) collisionFree_offered (fun b hb => ⟨hoffered.mem hb, hhashed b hb⟩)
    hlinked (toOption_eq_some.1 hledger) (by simp)

/-- The node is on the second block, refuses the broken child of it and could extend it. -/
def onSecondBlock (n : Node) : Bool :=
  n.builtBlocks.isEmpty && n.blocks.length == 2 &&
    brokenChild.header.parentHash == n.ledger.snapshot.tipHash &&
    ((acceptBlock (sampleEnv 1) 8 brokenChild false).run n).error? == some .stateRootMismatch &&
    (n.ledger.applyBlock rollingHashing sampleCrypto thirdBlock).toOption.isSome

/-- The broken rival is new, and does not compete. -/
def rivalIsBroken (n : Node) : Bool :=
  (n.knownBlock brokenRival.blockHash).isNone &&
    n.proposalVotes[brokenRival.blockHash]?.isNone &&
    n.bufferedProposalVotes[brokenRival.blockHash]?.isNone &&
    n.quorumCertificates[brokenRival.blockHash]?.isNone &&
    !n.isDirectChildOfCurrentCertifiedHead brokenRival &&
    (competingChain (sampleEnv 1) n brokenRival).toOption.isNone

/-- The second block arrives before the first, beside the tip. -/
theorem two_blocks_arrive : ∃ n,
    Reachable (sampleEnv 1) (SafelyArrives (sampleEnv 1) {b | b ∈ offeredBlocks}) n ∧
    onSecondBlock n = true ∧ rivalIsBroken n = true := by
  have hfirst : ((handleEvent (sampleEnv 1) 8 (.received 2 (.blockProposal secondBlock))).run
      (.fresh (sampleEnv 1) (some 1))).state?.map (fun n => n.ledger.snapshot.tipHash) =
      some empty_hash := by
    decide +kernel
  have hboth : (runEvents (sampleEnv 1) 8 [.received 2 (.blockProposal secondBlock),
      .received 4 (.blockProposal firstBlock)] (.fresh (sampleEnv 1) (some 1))).map
        (fun n => (onSecondBlock n, rivalIsBroken n)) = some (true, true) := by
    decide +kernel
  obtain ⟨m, hm, htip⟩ := Option.map_eq_some_iff.1 hfirst
  obtain ⟨n, hn, hvalues⟩ := Option.map_eq_some_iff.1 hboth
  have hrest : ((handleEvent (sampleEnv 1) 8 (.received 4 (.blockProposal firstBlock))).run m).state? =
      some n := by
    simpa [runEvents, hm] using hn
  have hsecond : SafelyArrives (sampleEnv 1) {b | b ∈ offeredBlocks} (.fresh (sampleEnv 1) (some 1))
      (.received 2 (.blockProposal secondBlock)) := by
    intro _
    refine ⟨fun b hb => ?_, fun b hb _ _ => ?_⟩
    · obtain rfl := List.mem_singleton.1 hb
      simp [offeredBlocks]
    · obtain rfl := List.mem_singleton.1 hb
      exact second_block_executes
  have hlast : SafelyArrives (sampleEnv 1) {b | b ∈ offeredBlocks} m
      (.received 4 (.blockProposal firstBlock)) := by
    intro _
    refine ⟨fun b hb => ?_, fun b hb _ hbeside => absurd ?_ hbeside⟩
    · obtain rfl := List.mem_singleton.1 hb
      simp [offeredBlocks]
    · obtain rfl := List.mem_singleton.1 hb
      exact htip.symm
  refine ⟨n, .handle 8 _ (.handle 8 _ (.fresh (some 1)) hsecond hm) hlast hrest, ?_⟩
  exact Prod.mk.inj hvalues

/-- A child of the tip with a wrong state root is rejected without a trace, a valid one is not rejected, and
a broken rival of the first block leaves a trace. -/
theorem broken_child_leaves_no_trace : ∃ n,
    Reachable (sampleEnv 1) (SafelyArrives (sampleEnv 1) {b | b ∈ offeredBlocks}) n ∧
    n.blocks.length = 2 ∧
    (acceptBlock (sampleEnv 1) 8 brokenChild false).run n = .err .stateRootMismatch n ∧
    (∀ b ∈ n.knownBlocks, b.blockHash ≠ brokenChild.blockHash) ∧
    (∀ fuel e n', (acceptBlock (sampleEnv 1) fuel thirdBlock false).run n ≠ .err e n') ∧
    ¬LeavesNoTrace (sampleEnv 1) n brokenRival := by
  obtain ⟨n, hn, hchain, hrival⟩ := two_blocks_arrive
  simp only [onSecondBlock, Bool.and_eq_true, List.isEmpty_iff, beq_iff_eq] at hchain
  obtain ⟨⟨⟨⟨hbuilt, hlength⟩, htip⟩, herror⟩, happlies⟩ := hchain
  simp only [rivalIsBroken, Bool.and_eq_true, Option.isNone_iff_eq_none, Bool.not_eq_true'] at hrival
  obtain ⟨⟨⟨⟨⟨hnew, hvotes⟩, hbuffered⟩, hcertificate⟩, hchild⟩, hcompeting⟩ := hrival
  have hvalid : validateReceivedBlock (sampleEnv 1) thirdBlock = .ok () ∧
      validateReceivedBlock (sampleEnv 1) brokenRival = .ok () := by decide +kernel
  have hparents : thirdBlock.header.parentHash = brokenChild.header.parentHash ∧
      brokenRival.header.parentHash ≠ brokenChild.header.parentHash := by decide +kernel
  obtain ⟨hsafe, hexact, -, haccepts⟩ := rejected_blocks_leave_no_trace (sampleEnv 1)
    {b | b ∈ offeredBlocks} (by decide +kernel) n hn
    fun _ => ⟨collisionFree_offered, sample_signer (by decide), by simp [hbuilt]⟩
  obtain ⟨n', hrun⟩ := Out.error?_eq_some.1 herror
  obtain ⟨rfl, hunknown⟩ := hsafe brokenChild
    (fun _ => ⟨by simp [offeredBlocks], fun _ hbeside => absurd htip hbeside⟩) 8 _ n' hrun
  refine ⟨n', hn, hlength, hrun, hunknown, haccepts thirdBlock hvalid.1 (fun _ => ?_)
    (fun _ => ⟨by simp [offeredBlocks], fun hbeside => absurd (hparents.1.trans htip) hbeside⟩),
    fun hnotrace => ?_⟩
  · obtain ⟨next, hnext⟩ := Option.isSome_iff_exists.1 happlies
    exact ⟨next, toOption_eq_some.1 hnext⟩
  · obtain ⟨candidate, hcandidate⟩ := (hexact brokenRival (fun _ => by simp [offeredBlocks])
      ⟨hvotes, hbuffered, hcertificate⟩ hchild).1 hnotrace rfl hnew hvalid.2 (htip ▸ hparents.2)
    simp [hcandidate, Except.toOption] at hcompeting

theorem broken_rival_run : (runEvents (sampleEnv 1) 8 [.received 4 (.blockProposal firstBlock)]
    (.fresh (sampleEnv 1) (some 1))).map (fun n => ((n.knownBlock brokenRival.blockHash).isNone,
      ((acceptBlock (sampleEnv 1) 8 brokenRival false).run n).error?,
      ((acceptBlock (sampleEnv 1) 8 brokenRival false).run n).state?.map
        fun n' => hasBlock n'.orphanBlocks brokenRival.blockHash)) =
    some (true, some .stateRootMismatch, some true) := by
  decide +kernel

/-- A rival of the first block with a wrong state root is rejected, and is an orphan from then on. -/
theorem rejected_block_stays : ∃ n e n', Reachable (sampleEnv 1) AnyEvent n ∧
    n.knownBlock brokenRival.blockHash = none ∧
    (acceptBlock (sampleEnv 1) 8 brokenRival false).run n = .err e n' ∧
    hasBlock n'.orphanBlocks brokenRival.blockHash = true := by
  obtain ⟨n, hn, hvalues⟩ := Reachable.of_map (P := AnyEvent) 8 _ _ _ _ (fun _ _ _ => trivial)
    broken_rival_run
  simp only [Prod.mk.injEq, Option.isNone_iff_eq_none] at hvalues
  obtain ⟨hunknown, herror, hstate⟩ := hvalues
  obtain ⟨n', hrun⟩ := Out.error?_eq_some.1 herror
  exact ⟨n, .stateRootMismatch, n', hn, hunknown, hrun, by simpa [hrun, Out.state?] using hstate⟩

end Entangrid
