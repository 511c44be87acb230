import Entangrid.Node.Votes
import Entangrid.Sample

/-!
# What an accepted certificate proves

`validate_quorum_certificate_for_block` compares the number of votes with the threshold, not the
number of voters. So a certificate it accepts has valid votes only, but one validator's vote may
stand in it any number of times.

* `certificate_quorum_iff`: an accepted certificate has a quorum of distinct signers exactly when
  its repeated votes do not exceed its surplus over the threshold, and two such certificates share
  more than a third of the validators.
-/

namespace Entangrid

section
variable (E : Env)

/-- A vote for `block`, with the block's metadata, that verifies under its validator's key. -/
def CorrectlySigned (block : Block) (vote : ProposalVote) : Prop :=
  vote.blockHash = block.blockHash ∧ vote.blockNumber = block.header.blockNumber ∧
    vote.epoch = block.header.epoch ∧ vote.slot = block.header.slot ∧
    E.crypto.verify vote.validatorId (proposalVoteSigningHash E.hashing vote) vote.signature =
      .ok true

instance (block : Block) (vote : ProposalVote) : Decidable (CorrectlySigned E block vote) :=
  inferInstanceAs (Decidable (_ ∧ _ ∧ _ ∧ _ ∧ _))

def genesisIds : Finset ValidatorId := (E.genesis.validators.map (·.validatorId)).toFinset

/-- The genesis validators that signed `block` in a certificate. -/
def signers (block : Block) (qc : QuorumCertificate) : Finset ValidatorId :=
  (genesisIds E).filter fun v =>
    ∃ vote ∈ qc.votes, vote.validatorId = v ∧ CorrectlySigned E block vote

end

section
variable {E : Env} {qc : QuorumCertificate} {block : Block} {vote : ProposalVote}

theorem verifySignature_ok {id : ValidatorId} {message : HashBytes} {signature : TypedSignature}
    {e : Error} {u : Unit} :
    verifySignature E id message signature e = .ok u ↔
      E.crypto.verify id message signature = .ok true := by
  unfold verifySignature
  rcases h : E.crypto.verify id message signature with d | (_ | _) <;>
    simp [ofCrypto, bind, Except.bind, rejectIf]

theorem validateProposalVoteSignatureAndSigner_ok {u : Unit} :
    validateProposalVoteSignatureAndSigner E vote = .ok u ↔
      vote.validatorId ∈ genesisIds E ∧
      E.crypto.verify vote.validatorId (proposalVoteSigningHash E.hashing vote) vote.signature =
        .ok true := by
  simp only [validateProposalVoteSignatureAndSigner, except_bind_ok, rejectIf_ok, verifySignature_ok,
    genesisIds]
  simp

theorem validateProposalVoteForBlock_ok {u : Unit}
    (h : validateProposalVoteForBlock E vote block = .ok u) :
    vote.validatorId ∈ genesisIds E ∧
      E.crypto.verify vote.validatorId (proposalVoteSigningHash E.hashing vote) vote.signature =
        .ok true ∧
      vote.blockNumber = block.header.blockNumber ∧ vote.epoch = block.header.epoch ∧
      vote.slot = block.header.slot := by
  simp only [validateProposalVoteForBlock, except_bind_ok, rejectIf_ok,
    validateProposalVoteSignatureAndSigner_ok] at h
  obtain ⟨-, ⟨hid, hverify⟩, -, -, hmeta⟩ := h
  simp only [Bool.or_eq_false_iff, bne_eq_false_iff_eq] at hmeta
  exact ⟨hid, hverify, hmeta.1.1, hmeta.1.2, hmeta.2⟩

/-- What acceptance establishes: at least `threshold` votes, each correctly signed by a genesis
validator. -/
theorem validateQuorumCertificateForBlock_ok {u : Unit}
    (h : validateQuorumCertificateForBlock E qc block = .ok u) :
    qc.votes ≠ [] ∧ quorumCertificateThreshold E.genesis.validators.length ≤ qc.votes.length ∧
      ∀ vote ∈ qc.votes, vote.validatorId ∈ genesisIds E ∧ CorrectlySigned E block vote := by
  simp only [validateQuorumCertificateForBlock, except_bind_ok, rejectIf_ok, forM_ok] at h
  obtain ⟨-, hmeta, -, hwf, -, hlen, -, -, hvotes⟩ := h
  simp only [Bool.or_eq_false_iff, bne_eq_false_iff_eq] at hmeta
  simp only [QuorumCertificate.isWellFormed, Bool.not_eq_false', Bool.and_eq_true, List.all_eq_true,
    beq_iff_eq, Bool.not_eq_true', List.isEmpty_eq_false_iff] at hwf
  refine ⟨hwf.1.1, by simpa using hlen, fun vote hvote => ?_⟩
  obtain ⟨hid, hverify, hnumber, hepoch, hslot⟩ := validateProposalVoteForBlock_ok (hvotes vote hvote)
  refine ⟨hid, ?_, hnumber, hepoch, hslot, hverify⟩
  rw [← hmeta.1.1.1]
  exact (hwf.2 vote hvote).1.1.1

/-- The signers of an accepted certificate are its voters. -/
theorem signers_eq_voters {u : Unit} (h : validateQuorumCertificateForBlock E qc block = .ok u) :
    signers E block qc = (qc.votes.map (·.validatorId)).toFinset := by
  obtain ⟨-, -, hvotes⟩ := validateQuorumCertificateForBlock_ok h
  ext v
  simp only [signers, Finset.mem_filter, List.mem_toFinset, List.mem_map]
  constructor
  · rintro ⟨-, vote, hvote, hv, -⟩
    exact ⟨vote, hvote, hv⟩
  · rintro ⟨vote, hvote, rfl⟩
    exact ⟨(hvotes vote hvote).1, vote, hvote, rfl, (hvotes vote hvote).2⟩

theorem threshold_le_card_signers_iff {u : Unit}
    (h : validateQuorumCertificateForBlock E qc block = .ok u) :
    quorumCertificateThreshold E.genesis.validators.length ≤ (signers E block qc).card ↔
      Quorum.repeats (qc.votes.map (·.validatorId)) +
        quorumCertificateThreshold E.genesis.validators.length ≤ qc.votes.length := by
  have hcount := Quorum.repeats_add_card (qc.votes.map (·.validatorId))
  rw [List.length_map] at hcount
  rw [signers_eq_voters h]
  omega

theorem genesisIds_card_le : (genesisIds E).card ≤ E.genesis.validators.length := by
  simpa [genesisIds] using List.toFinset_card_le (E.genesis.validators.map (·.validatorId))

/-- An accepted certificate has a vote, so there is a validator. -/
theorem validators_pos {u : Unit} (h : validateQuorumCertificateForBlock E qc block = .ok u) :
    0 < E.genesis.validators.length := by
  obtain ⟨hne, -, hvotes⟩ := validateQuorumCertificateForBlock_ok h
  obtain ⟨vote, hvote⟩ := List.exists_mem_of_ne_nil _ hne
  have hid := (hvotes vote hvote).1
  simp only [genesisIds, List.mem_toFinset, List.mem_map] at hid
  obtain ⟨validator, hvalidator, -⟩ := hid
  exact List.length_pos_of_mem hvalidator

end

/-- **An accepted certificate has `threshold` distinct signers exactly when its repeated votes leave
that many, and two accepted certificates that do share more than a third of the validators.** -/
theorem certificate_quorum_iff (E : Env) (qc : QuorumCertificate) (block : Block)
    (hok : validateQuorumCertificateForBlock E qc block = .ok ()) :
    (quorumCertificateThreshold E.genesis.validators.length ≤ (signers E block qc).card ↔
      Quorum.repeats (qc.votes.map (·.validatorId)) +
        quorumCertificateThreshold E.genesis.validators.length ≤ qc.votes.length) ∧
    ∀ qc' block', validateQuorumCertificateForBlock E qc' block' = .ok () →
      Quorum.repeats (qc.votes.map (·.validatorId)) +
        quorumCertificateThreshold E.genesis.validators.length ≤ qc.votes.length →
      Quorum.repeats (qc'.votes.map (·.validatorId)) +
        quorumCertificateThreshold E.genesis.validators.length ≤ qc'.votes.length →
      E.genesis.validators.length < 3 * (signers E block qc ∩ signers E block' qc').card := by
  refine ⟨threshold_le_card_signers_iff hok, fun qc' block' hok' h h' => ?_⟩
  refine Quorum.lt_three_mul_card_inter (validators_pos hok) genesisIds_card_le
    (Finset.filter_subset _ _) (Finset.filter_subset _ _) ?_ ?_
  · exact (threshold_le_card_signers_iff hok).2 h
  · exact (threshold_le_card_signers_iff hok').2 h'

/-- Three different voters of four: a quorum, which shares more than a third with itself. -/
theorem three_voters_are_a_quorum :
    validateQuorumCertificateForBlock (sampleEnv 1)
        (certificateOf (emptyBlock 1 empty_hash 0) [1, 2, 3]) (emptyBlock 1 empty_hash 0) = .ok () ∧
      quorumCertificateThreshold 4 ≤ (signers (sampleEnv 1) (emptyBlock 1 empty_hash 0)
        (certificateOf (emptyBlock 1 empty_hash 0) [1, 2, 3])).card ∧
      4 < 3 * (signers (sampleEnv 1) (emptyBlock 1 empty_hash 0)
          (certificateOf (emptyBlock 1 empty_hash 0) [1, 2, 3]) ∩
        signers (sampleEnv 1) (emptyBlock 1 empty_hash 0)
          (certificateOf (emptyBlock 1 empty_hash 0) [1, 2, 3])).card := by
  have hok : validateQuorumCertificateForBlock (sampleEnv 1)
      (certificateOf (emptyBlock 1 empty_hash 0) [1, 2, 3]) (emptyBlock 1 empty_hash 0) =
        .ok () := by
    decide +kernel
  have hrepeats : Quorum.repeats ((certificateOf (emptyBlock 1 empty_hash 0) [1, 2, 3]).votes.map
      (·.validatorId)) + quorumCertificateThreshold (sampleEnv 1).genesis.validators.length ≤
        (certificateOf (emptyBlock 1 empty_hash 0) [1, 2, 3]).votes.length := by
    decide +kernel
  obtain ⟨hquorum, hshare⟩ := certificate_quorum_iff _ _ _ hok
  exact ⟨hok, hquorum.2 hrepeats, hshare _ _ hok hrepeats hrepeats⟩

/-- One vote three times passes as a certificate of four validators, with a single signer. -/
theorem repeated_vote_passes_as_certificate :
    validateQuorumCertificateForBlock (sampleEnv 1)
        (certificateOf (emptyBlock 1 empty_hash 0) [1, 1, 1]) (emptyBlock 1 empty_hash 0) = .ok () ∧
      quorumCertificateThreshold (sampleEnv 1).genesis.validators.length = 3 ∧
      (signers (sampleEnv 1) (emptyBlock 1 empty_hash 0)
        (certificateOf (emptyBlock 1 empty_hash 0) [1, 1, 1])).card = 1 := by
  decide +kernel

end Entangrid
