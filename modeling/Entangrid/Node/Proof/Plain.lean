import Entangrid.Node.Proof.Speech

/-!
# Nodes without `consensus_v2`

Such a node drops votes, certificates, certified sync and service evidence, and the votes that come
with a chain. So it handles a message as it handles the message without them (`handleEvent_plain`),
it signs no vote, and it never holds a vote or a certificate (`Inert`).
-/

namespace Entangrid

open Proc (Always Moves)

/-! ## What is dropped -/

/-- The message without what a node without `consensus_v2` drops. A response with no receipts stands
for a message that is dropped as a whole. -/
def ProtocolMessage.plain : ProtocolMessage → ProtocolMessage
  | .syncResponse v chain => .syncResponse v { chain with proposalVotes := [] }
  | .syncBlocks v chain => .syncBlocks v { chain with proposalVotes := [] }
  | .proposalVote _ | .quorumCertificate _ | .certifiedSyncResponse _ | .serviceAttestation _
  | .serviceAggregate _ => .receiptResponse 0 0 0 []
  | message => message

def Event.plain : Event → Event
  | .received sender payload => .received sender payload.plain
  | event => event

theorem Event.votes_plain (event : Event) : event.plain.votes = [] := by
  cases event with
  | received sender payload => cases payload <;> rfl
  | _ => rfl

theorem Event.gossiped_plain (event : Event) : event.plain.gossiped = event.gossiped := by
  cases event with
  | received sender payload => cases payload <;> rfl
  | _ => rfl

theorem Event.carried_plain (event : Event) : event.plain.carried ⊆ event.carried := by
  cases event with
  | received sender payload =>
    cases payload with
    | certifiedSyncResponse => exact List.nil_subset _
    | _ => exact List.Subset.refl _
  | _ => exact List.Subset.refl _

section
variable {E : Env} {n : Node} (hv1 : E.v2 = false) (fuel : Nat)
include hv1

theorem importProposalVote_plain (vote : ProposalVote) :
    importProposalVote E fuel vote = Proc.throw .votesRequireV2 := by
  unfold importProposalVote importProposalVoteWith
  rw [hv1]
  rfl

/-- The votes of an imported chain are dropped one by one. -/
theorem importVotesOfChain_plain (votes : List ProposalVote) (applied : List Block) :
    importVotesOfChain E fuel votes applied = importVotesOfChain E fuel [] applied := by
  have hdropped : (Proc.forEach votes fun vote => do
      let _ ← Proc.attempt (importProposalVote E fuel vote)
      pure ()) = (pure () : NodeM Unit) := by
    induction votes with
    | nil => rfl
    | cons vote votes ih =>
      rw [Proc.forEach, importProposalVote_plain hv1, ih]
      rfl
  unfold importVotesOfChain
  rw [hdropped]
  rfl

theorem applyChainSnapshot_plain (chain : ChainSnapshot) :
    applyChainSnapshot E fuel { chain with proposalVotes := [] } =
      applyChainSnapshot E fuel chain := by
  unfold applyChainSnapshot
  simp only [importVotesOfChain_plain hv1 fuel chain.proposalVotes chain.blocks]
  rfl

theorem handleSyncResponse_plain (responderId : ValidatorId) (chain : ChainSnapshot) :
    handleSyncResponse E fuel responderId { chain with proposalVotes := [] } =
      handleSyncResponse E fuel responderId chain := by
  unfold handleSyncResponse shouldAdoptChainSnapshot shouldPushLocalSnapshotAfterSyncResponse
  simp only [hv1, Bool.not_false, Bool.true_or, if_true, applyChainSnapshot_plain hv1]

omit hv1 in
/-- Segments are aligned by their blocks. -/
theorem alignChainSegmentToLocalChain_plain (localBlocks : List Block)
    (localSnapshot : StateSnapshot) (chain : ChainSegment) :
    alignChainSegmentToLocalChain localBlocks localSnapshot { chain with proposalVotes := [] } =
      (fun aligned => { aligned with proposalVotes := [] }) <$>
        alignChainSegmentToLocalChain localBlocks localSnapshot chain := by
  simp only [alignChainSegmentToLocalChain, map_bind]
  by_cases hzero : chain.baseHeight = 0
  · simp only [if_pos hzero]
    split_ifs <;> simp only [map_bind] <;> rfl
  · simp only [if_neg hzero]
    cases localBlocks[chain.baseHeight - 1]? with
    | none => split_ifs <;> rfl
    | some block => split_ifs <;> simp only [map_bind] <;> rfl

theorem applyChainSegment_plain (chain : ChainSegment) :
    applyChainSegment E fuel { chain with proposalVotes := [] } = applyChainSegment E fuel chain := by
  unfold applyChainSegment
  have hrepair : syncRepairBaseForSegment E { chain with proposalVotes := [] } =
      syncRepairBaseForSegment E chain := rfl
  rw [hrepair]
  congr 1
  funext base
  obtain ⟨localBlocks, localSnapshot⟩ := base
  dsimp only
  rw [alignChainSegmentToLocalChain_plain]
  cases alignChainSegmentToLocalChain localBlocks localSnapshot chain with
  | error e => rfl
  | ok aligned =>
    have hok (a : ChainSegment) (f : ChainSegment → NodeM Unit) :
        NodeM.check (.ok a) >>= f = f a := rfl
    simp only [Functor.map, Except.map, hok,
      importVotesOfChain_plain hv1 fuel aligned.proposalVotes]

theorem handleSyncBlocks_plain (responderId : ValidatorId) (chain : ChainSegment) :
    handleSyncBlocks E fuel responderId { chain with proposalVotes := [] } =
      handleSyncBlocks E fuel responderId chain := by
  unfold handleSyncBlocks
  simp only [applyChainSegment_plain hv1]
  rfl

theorem dispatchMessage_plain (sender : ValidatorId) (payload : ProtocolMessage) :
    dispatchMessage E fuel sender payload.plain = dispatchMessage E fuel sender payload := by
  cases payload with
  | syncResponse v chain => exact handleSyncResponse_plain hv1 fuel v chain
  | syncBlocks v chain => exact handleSyncBlocks_plain hv1 fuel v chain
  | proposalVote | quorumCertificate | certifiedSyncResponse | serviceAttestation
  | serviceAggregate =>
    unfold dispatchMessage
    simp only [hv1, Bool.false_eq_true, if_false]
    rfl
  | _ => rfl

/-- **What is dropped makes no difference.** -/
theorem handleEvent_plain (event : Event) :
    handleEvent E fuel event.plain = handleEvent E fuel event := by
  cases event with
  | received sender payload =>
    have hclass : classifyPeerMessage payload.plain = classifyPeerMessage payload := by
      cases payload <;> rfl
    have hallow : allowPeerMessage E sender payload.plain = allowPeerMessage E sender payload := by
      unfold allowPeerMessage
      rw [hclass]
    show (do
      Proc.modify fun n : Node => { n with knownLivePeers := n.knownLivePeers.insert sender }
      handleProtocolMessage E fuel sender payload.plain) = _
    unfold handleProtocolMessage
    rw [hallow, dispatchMessage_plain hv1]
    rfl
  | _ => rfl

end

/-! ## Nothing is signed -/

section
variable {E : Env} {O : Occasion} {A : Source} {P : Node → Event → Prop} {n n' : Node}

theorem Write.signedVotes (hv1 : E.v2 = false) (h : Write E O n n') :
    n'.signedVotes = n.signedVotes := by
  cases h with
  | quiet hquiet =>
    have heffects : n'.effects = n.effects := congrArg Watched.effects hquiet.watched
    rw [Node.signedVotes, heffects, Node.signedVotes]
  | note effect hnote =>
    cases effect with
    | voteSigned vote => simp [Effect.isNote, hv1] at hnote
    | _ => rfl
  | _ => rfl

theorem Reachable.signedVotes (hv1 : E.v2 = false) (hn : Reachable E P n) : n.signedVotes = [] := by
  induction hn with
  | fresh slot => rfl
  | @handle n n' fuel event hn hP hrun ih =>
    have hchain := hn.writes hrun
    clear hrun hP
    induction hchain with
    | refl => exact ih
    | tail _ hwrite ih' => exact (hwrite.signedVotes hv1).trans ih'

/-! ## Nothing is held -/

/-- The node holds no vote and no certificate. -/
structure Inert (n : Node) : Prop where
  votes : ∀ vote, ¬n.Holds vote
  certificates : ∀ blockHash : HashBytes, n.quorumCertificates[blockHash]? = none

theorem Inert.fresh (slot : Option Slot) : Inert (Node.fresh E slot) where
  votes := by
    rintro vote ⟨h, v, hl | hl⟩
    · simp [Node.fresh] at hl
    · simp [Node.fresh] at hl
  certificates := by simp [Node.fresh]

section
variable (hvalidators : E.genesis.validators ≠ [])
include hvalidators

theorem quorumCertificateThreshold_pos :
    0 < quorumCertificateThreshold E.genesis.validators.length := by
  have hlength : E.genesis.validators.length ≠ 0 := by simpa using hvalidators
  rw [quorumCertificateThreshold, Quorum.threshold, if_neg hlength]
  omega

theorem length_votes_pos_of_validate {qc : QuorumCertificate} {block : Block}
    (h : validateQuorumCertificateForBlock E qc block = .ok ()) : 0 < qc.votes.length := by
  have hpos := quorumCertificateThreshold_pos hvalidators
  simp only [validateQuorumCertificateForBlock, except_bind_ok, rejectIf_ok] at h
  obtain ⟨_, -, _, -, _, hcount, -⟩ := h
  have hcount := of_decide_eq_false hcount
  omega

theorem length_votes_pos_of_assembled {blockHash : HashBytes} {qc : QuorumCertificate}
    (h : assembledQc E n blockHash = some qc) : 0 < qc.votes.length := by
  have hpos := quorumCertificateThreshold_pos hvalidators
  obtain ⟨block, byValidator, -, -, hsize, rfl⟩ := assembledQc_eq_some h
  rw [List.length_map, Std.ExtTreeMap.length_toList]
  omega

/-- Where no vote arrives and none is signed, none is held, and there is nothing to certify with. -/
theorem Inert.step (h : Inert n) (hvotes : A.votes = ∅) (hsigned : n.signedVotes = [])
    (hstep : Step E A n n') : Inert n' := by
  have hnone (vote : ProposalVote) : ¬A.Vote n vote := by
    rintro (hvote | hvote)
    · simp [hvotes] at hvote
    · simp [hsigned] at hvote
  refine ⟨fun vote hheld => ?_, fun blockHash => ?_⟩
  · exact (hstep.holds hheld).elim (h.votes vote) (hnone vote)
  · cases hqc : n'.quorumCertificates[blockHash]? with
    | none => rfl
    | some qc =>
      exfalso
      rcases hstep.certificate_cases hqc with hold | ⟨-, hbuilt | ⟨block, -, hvalid, hsource⟩⟩
      · simp [h.certificates] at hold
      · obtain ⟨vote, hvote⟩ := List.exists_mem_of_length_pos
          (length_votes_pos_of_assembled hvalidators hbuilt)
        exact h.votes vote (assembledQc_holds hbuilt hvote)
      · obtain ⟨vote, hvote⟩ := List.exists_mem_of_length_pos
          (length_votes_pos_of_validate hvalidators hvalid)
        exact hnone vote (hsource vote hvote)

end

/-! ## Runs -/

/-- Without `consensus_v2` neither votes nor certified suffixes come in. -/
def voteless : Source where
  votes := ∅
  suffixes _ := ∅

theorem voteless_admits (n : Node) (event : Event) : voteless.Admits E n event.plain where
  votes vote hvote := by
    rw [event.votes_plain] at hvote
    cases hvote
  suffix sender r he := by
    cases event with
    | received sender payload => cases payload <;> cases he
    | _ => cases he

theorem Inert.steps (hvalidators : E.genesis.validators ≠ []) (hsigned : n'.signedVotes = [])
    (h : Inert n) (hc : voteless.Covers n) (hsteps : Steps E voteless n n') :
    Inert n' ∧ voteless.Covers n' := by
  induction hsteps with
  | refl => exact ⟨h, hc⟩
  | @tail m n' hsteps hstep ih =>
    have hvotes : m.signedVotes <:+ n'.signedVotes := hstep.effects_suffix.filterMap _
    rw [hsigned, List.suffix_nil] at hvotes
    obtain ⟨hm, hcm⟩ := ih hvotes
    exact ⟨hm.step hvalidators rfl hvotes hstep, hstep.covers hcm⟩

theorem Reachable.inert {P : Node → Event → Prop} (hn : Reachable E P n) (hv1 : E.v2 = false)
    (hvalidators : E.genesis.validators ≠ []) : Inert n := by
  suffices Inert n ∧ voteless.Covers n from this.1
  induction hn with
  | fresh slot => exact ⟨.fresh slot, Source.covers_fresh slot⟩
  | @handle n n' fuel event hn hP hrun ih =>
    have hsigned := (Reachable.handle fuel event hn hP hrun).signedVotes hv1
    rw [← handleEvent_plain hv1] at hrun
    have hsteps := (handleEvent_moves fuel (voteless_admits n event)).of_state? hrun ih.2
    exact ih.1.steps hvalidators hsigned ih.2 hsteps

end

end Entangrid
