import Entangrid.Node.Start
import Entangrid.Node.Proof.OneVote

/-!
# One vote per height and slot, over all lives of a node

A restart empties the vote maps and restores the votes of the stored certificates. The invariant of
the vote maps holds of the empty maps, and restoring a certificate stores its votes as importing one
does, so the invariant holds over any number of restarts.

* `one_vote_per_height_and_slot`: no validator has two votes for one height, or for one slot, that
  name different blocks.
-/

namespace Entangrid

open Proc (Moves)

variable {E : Env} {A : Source} {n n' : Node}

/-- The invariant of the vote maps is kept. -/
def VotesKept (E : Env) (n n' : Node) : Prop := VoteInv E n → VoteInv E n'

instance (E : Env) : IsPreorder Node (VotesKept E) where
  refl _ := id
  trans _ _ _ h h' hn := h' (h hn)

theorem Acts.votesKept (h : Acts E {} n n') : VotesKept E n n' := fun hn => by
  have hsteps : Steps E {} n n' := h (Source.covers_of_univ rfl rfl n)
  clear h
  induction hsteps with
  | refl => exact hn
  | tail _ hstep ih => exact ih.step hstep

/-! ## Restoring -/

theorem restoreServiceEvidence_stepwise (attestations : List ServiceAttestation)
    (aggregates : List ServiceAggregate) :
    Stepwise E A (restoreServiceEvidence E attestations aggregates) := by
  refine .unlessM <| .bind (.forEach fun attestation n => Moves.ofExcept_bind fun _ hvalid => ?_)
    fun _ => .forEach fun aggregate n => Moves.ofExcept_bind fun _ hvalid => ?_
  · exact (insertServiceAttestation_stepwise hvalid false).thenPure n
  · exact (mergeServiceAggregate_stepwise false hvalid).thenPure n

section
variable {R : Node → Node → Prop} [IsPreorder Node R] (hvotes : ∀ vote, vote ∈ A.votes)
  (hacts : ∀ {n n'}, Acts E A n n' → R n n') (hqc : ∀ n qc, R n (n.addQc qc))
include hvotes hacts hqc

/-- Restoring a certificate stores its votes as an import does, and adds it. -/
theorem restoreQuorumCertificate_moves (qc : QuorumCertificate) :
    Moves R (restoreQuorumCertificate E qc) n := by
  refine Moves.read ?_
  split
  · exact Moves.pure _
  · next block hblock =>
    have hknown : n.knownBlock qc.blockHash = some block := by
      rw [Node.knownBlock, findBlock, hblock]
      rfl
    refine Moves.ofExcept_bind fun _ hvalid => Moves.bind ?_ fun _ s _ => Moves.modify (hqc s qc)
    exact (storeCertifiedVotes_moves hknown hvalid fun vote _ => hvotes vote).mono
      fun _ h => hacts h.1

theorem restoreQuorumCertificates_moves (qcs : List QuorumCertificate) :
    Moves R (restoreQuorumCertificates E qcs) n := by
  refine Moves.bind (Moves.forEach fun qc _ s _ => restoreQuorumCertificate_moves hvotes hacts hqc qc)
    fun _ s _ => Moves.read ?_
  split
  · exact Moves.pure _
  · exact Moves.modify (hacts fun _ => .single (.prune _ _))

/-- What steps, new certificates and rebuilt seen sets keep, starting a node keeps. -/
theorem startNode_moves (hseen : ∀ n, R n (n.rebuildSeenSets E)) (d : Disk) :
    Moves R (startNode E d) n :=
  Moves.bind ((restoreServiceEvidence_stepwise _ _ n).mono fun _ h => hacts h) fun _ _ _ =>
    Moves.bind (restoreQuorumCertificates_moves hvotes hacts hqc _) fun _ s _ => Moves.modify (hseen s)

end

theorem VotesKept.addQc (n : Node) (qc : QuorumCertificate) : VotesKept E n (n.addQc qc) :=
  fun h => h.of_shrink (.of_eq rfl rfl) (.of_eq rfl)

theorem VotesKept.rebuildSeenSets (n : Node) : VotesKept E n (n.rebuildSeenSets E) :=
  fun h => h.of_shrink (.of_eq rfl rfl) (.of_eq rfl)

/-! ## Lives -/

theorem Alive.voteInv (hn : Alive E n) : VoteInv E n := by
  induction hn with
  | start d hrun =>
    exact (startNode_moves (A := {}) (fun _ => trivial) Acts.votesKept VotesKept.addQc VotesKept.rebuildSeenSets
      d).of_state? hrun
      (.of_empty rfl rfl rfl)
  | restore qcs _ hrun ih =>
    exact (restoreQuorumCertificates_moves (A := {}) (fun _ => trivial) Acts.votesKept VotesKept.addQc
      qcs).of_state? hrun ih
  | handle fuel event _ hrun ih =>
    exact Acts.votesKept ((handleEvent_moves fuel (admits_any _ event trivial)).of_state? hrun) ih

/-- **No validator has two votes of one height, or of one slot, for different blocks**, in whatever
order votes, blocks, certificates, chains and restarts come. -/
theorem one_vote_per_height_and_slot (E : Env) (n : Node) (hn : Alive E n) (x y : ProposalVote)
    (hx : n.Holds x) (hy : n.Holds y) (hvoter : x.validatorId = y.validatorId)
    (hrivals : x.blockNumber = y.blockNumber ∨ (x.epoch = y.epoch ∧ x.slot = y.slot)) :
    x.blockHash = y.blockHash := by
  have h := hn.voteInv
  obtain ⟨k, v, hfx⟩ := hx
  obtain ⟨k', v', hfy⟩ := hy
  obtain rfl : v = v' := by
    rw [← (h.keyed k v x hfx).2, ← (h.keyed k' v' y hfy).2, hvoter]
  exact h.unique v x (Node.mem_heldVotesOf_iff.2 ⟨k, hfx⟩) y (Node.mem_heldVotesOf_iff.2 ⟨k', hfy⟩)
    hrivals

/-- A directory with the first block and its certificate. -/
def certifiedDisk : Disk where
  blocks := [firstBlock]
  quorumCertificates := [certificateOf firstBlock [1, 2, 3]]

/-- A node restores the votes of a certificate; a later vote of validator 2 for the rival block does
not get in next to its restored one. -/
theorem restored_votes_stand_alone : ∃ n, Alive (sampleEnv 1) n ∧
    n.Holds (signedProposalVote 2 firstBlock) ∧
    ∀ y, n.Holds y → y.validatorId = 2 → y.blockNumber = 1 → y.blockHash = firstBlock.blockHash := by
  have hstart : (((startNode (sampleEnv 1) certifiedDisk).run
      (certifiedDisk.node (sampleEnv 1))).state?.bind
        (runEvents (sampleEnv 1) 8 [.received 2 (.proposalVote (signedProposalVote 2 rivalBlock))])).map
      (fun n => VoteMap.lookup n.proposalVotes firstBlock.blockHash 2) =
        some (some (signedProposalVote 2 firstBlock)) := by
    decide +kernel
  obtain ⟨n, hn, hlookup⟩ := Option.map_eq_some_iff.1 hstart
  obtain ⟨n₀, hn₀, hrun⟩ := Option.bind_eq_some_iff.1 hn
  have halive : Alive (sampleEnv 1) n := (Alive.start certifiedDisk hn₀).runEvents hrun
  have hheld : n.Holds (signedProposalVote 2 firstBlock) :=
    ⟨firstBlock.blockHash, 2, .inl hlookup⟩
  refine ⟨n, halive, hheld, fun y hy hvoter hnumber => ?_⟩
  exact one_vote_per_height_and_slot (sampleEnv 1) n halive y (signedProposalVote 2 firstBlock) hy
    hheld hvoter (.inl hnumber)

end Entangrid
