import Entangrid.Consensus.Proof.Assignment
import Entangrid.Lib.Quorum

/-!
# Service committees

The attestations of an accepted aggregate come from different members of the committee of its
subject, and from more than two thirds of it.

* `attestedMembers_ok`, `attestedMembers_of_nodup`: what the loop over the attestations accepts.
* `service_aggregates_intersect`: two accepted aggregates about one subject and epoch share more than
  a third of the committee.
-/

namespace Entangrid

/-- The committee members with an attestation in the aggregate. -/
def ServiceAggregate.members (g : ServiceAggregate) : List ValidatorId :=
  g.attestations.map (·.committeeMemberId)

namespace ConsensusEngine

variable {C : ConsensusEngine}

/-! ## The loop over the attestations -/

/-- The committee check collects the voters, and refuses a stranger and one that comes twice. -/
theorem attestedMembers_ok {committee : List ValidatorId} {attestations : List ServiceAttestation}
    {attested members : List ValidatorId}
    (h : attestedMembers committee attestations attested = .ok members) :
    members.length = attested.length + attestations.length ∧
      (attestations.map (·.committeeMemberId)).Nodup ∧
      (∀ a ∈ attestations, a.committeeMemberId ∉ attested) ∧
      ∀ a ∈ attestations, a.committeeMemberId ∈ committee := by
  induction attestations generalizing attested with
  | nil =>
    cases h
    simp
  | cons a rest ih =>
    rw [attestedMembers] at h
    split_ifs at h with hcommittee hnew
    obtain ⟨hlength, hnodup, hrest, hmember⟩ := ih h
    have hnew' : a.committeeMemberId ∉ attested := by simpa using hnew
    refine ⟨?_, ?_, ?_, ?_⟩
    · rw [hlength, List.length_cons, List.length_cons]
      omega
    · refine List.nodup_cons.2 ⟨fun hmem => ?_, hnodup⟩
      obtain ⟨b, hb, heq⟩ := List.mem_map.1 hmem
      exact hrest b hb (heq ▸ List.mem_cons_self)
    · rintro b (_ | ⟨_, hb⟩)
      · exact hnew'
      · exact fun hmem => hrest b hb (List.mem_cons_of_mem _ hmem)
    · rintro b (_ | ⟨_, hb⟩)
      · simpa using hcommittee
      · exact hmember b hb

theorem attestedMembers_of_nodup {committee : List ValidatorId}
    {attestations : List ServiceAttestation} {attested : List ValidatorId}
    (hcommittee : ∀ a ∈ attestations, a.committeeMemberId ∈ committee)
    (hnodup : (attestations.map (·.committeeMemberId)).Nodup)
    (hnew : ∀ a ∈ attestations, a.committeeMemberId ∉ attested) :
    ∃ members, attestedMembers committee attestations attested = .ok members ∧
      members.length = attested.length + attestations.length := by
  induction attestations generalizing attested with
  | nil => exact ⟨attested, rfl, rfl⟩
  | cons a rest ih =>
    obtain ⟨hhead, hnodup⟩ := List.nodup_cons.1 hnodup
    have hfresh : ∀ b ∈ rest, b.committeeMemberId ∉ a.committeeMemberId :: attested := by
      intro b hb hmem
      rcases List.mem_cons.1 hmem with heq | hmem
      · exact hhead (List.mem_map.2 ⟨b, hb, heq⟩)
      · exact hnew b (List.mem_cons_of_mem a hb) hmem
    obtain ⟨members, hmembers, hlength⟩ :=
      ih (fun b hb => hcommittee b (List.mem_cons_of_mem a hb)) hnodup hfresh
    refine ⟨members, ?_, ?_⟩
    · have hin : committee.contains a.committeeMemberId = true := by
        simpa using hcommittee a List.mem_cons_self
      have hout : attested.contains a.committeeMemberId = false := by
        simpa using hnew a List.mem_cons_self
      rw [attestedMembers, hin, hout]
      exact hmembers
    · rw [hlength, List.length_cons, List.length_cons]
      omega

/-! ## Accepted aggregates -/

/-- An accepted aggregate: its attestations are about its subject, of different members of the
committee and enough. -/
theorem accepted_attestations {g : ServiceAggregate} {u : Unit}
    (h : C.validateServiceAggregate g = .ok u) :
    g.attestations ≠ [] ∧
      (∀ a ∈ g.attestations, a.subjectValidatorId = g.subjectValidatorId ∧ a.epoch = g.epoch) ∧
      g.members.Nodup ∧ g.members ⊆ C.serviceCommitteeFor g.epoch g.subjectValidatorId ∧
      serviceCommitteeThreshold (C.serviceCommitteeFor g.epoch g.subjectValidatorId).length ≤
        g.members.length := by
  simp only [validateServiceAggregate, except_bind_ok, rejectIf_ok] at h
  obtain ⟨-, hwf, members, hmembers, henough⟩ := h
  obtain ⟨hlength, hnodup, -, hcommittee⟩ := attestedMembers_ok hmembers
  simp only [ServiceAggregate.isWellFormed, Bool.not_eq_false', Bool.and_eq_true, List.all_eq_true,
    beq_iff_eq, Bool.not_eq_true', List.isEmpty_eq_false_iff] at hwf
  refine ⟨hwf.1.1.1, hwf.2, hnodup, fun v hv => ?_, ?_⟩
  · obtain ⟨a, ha, rfl⟩ := List.mem_map.1 hv
    exact hcommittee a ha
  · have hle := decide_eq_false_iff_not.1 henough
    rw [hlength, List.length_nil] at hle
    rw [ServiceAggregate.members, List.length_map]
    omega

/-- An empty committee accepts nothing: an aggregate has an attestation, whose signer is a member. -/
theorem committee_ne_nil_of_validateServiceAggregate {g : ServiceAggregate}
    (h : C.validateServiceAggregate g = .ok ()) :
    C.serviceCommitteeFor g.epoch g.subjectValidatorId ≠ [] := by
  obtain ⟨hne, -, -, hcommittee, -⟩ := accepted_attestations h
  obtain ⟨a, ha⟩ := List.exists_mem_of_ne_nil _ hne
  exact List.ne_nil_of_mem (hcommittee (List.mem_map.2 ⟨a, ha, rfl⟩))

/-- **Accepted aggregates intersect.** In a genesis with distinct ids, two accepted aggregates about one
subject and epoch share at least `(c - 1) / 3 + 1` of the `c` members of the committee, and nothing is
accepted where the committee is empty. -/
theorem service_aggregates_intersect (C : ConsensusEngine)
    (hids : (C.genesis.validators.map (·.validatorId)).Nodup) (epoch : Epoch)
    (subject : ValidatorId) (g g' : ServiceAggregate)
    (hg : g.subjectValidatorId = subject ∧ g.epoch = epoch)
    (hg' : g'.subjectValidatorId = subject ∧ g'.epoch = epoch)
    (hvalid : C.validateServiceAggregate g = .ok ())
    (hvalid' : C.validateServiceAggregate g' = .ok ()) :
    C.serviceCommitteeFor epoch subject ≠ [] ∧
      ((C.serviceCommitteeFor epoch subject).length - 1) / 3 + 1 ≤
        ((C.serviceCommitteeFor epoch subject).filter fun v =>
          v ∈ g.members ∧ v ∈ g'.members).length := by
  obtain ⟨rfl, rfl⟩ := hg
  obtain ⟨hsubject, hepoch⟩ := hg'
  have hne := committee_ne_nil_of_validateServiceAggregate hvalid
  obtain ⟨-, -, hnodup, hcommittee, henough⟩ := accepted_attestations hvalid
  obtain ⟨-, -, hnodup', hcommittee', henough'⟩ := accepted_attestations hvalid'
  rw [hsubject, hepoch] at hcommittee' henough'
  have hcommitteeNodup := nodup_serviceCommitteeFor hids g.epoch g.subjectValidatorId
  generalize C.serviceCommitteeFor g.epoch g.subjectValidatorId = committee at *
  have hthird : committee.length < 3 * (g.members.toFinset ∩ g'.members.toFinset).card := by
    refine Quorum.lt_three_mul_card_inter (List.length_pos_iff.2 hne)
      (List.toFinset_card_of_nodup hcommitteeNodup).le ?_ ?_ ?_ ?_
    · exact fun v hv => List.mem_toFinset.2 (hcommittee (List.mem_toFinset.1 hv))
    · exact fun v hv => List.mem_toFinset.2 (hcommittee' (List.mem_toFinset.1 hv))
    · rw [List.toFinset_card_of_nodup hnodup]
      exact henough
    · rw [List.toFinset_card_of_nodup hnodup']
      exact henough'
  have hshared : g.members.toFinset ∩ g'.members.toFinset ⊆
      (committee.filter fun v => v ∈ g.members ∧ v ∈ g'.members).toFinset := by
    intro v hv
    obtain ⟨hv, hv'⟩ := Finset.mem_inter.1 hv
    simp only [List.mem_toFinset] at hv hv'
    simpa using ⟨hcommittee hv, hv, hv'⟩
  have hcard := (Finset.card_le_card hshared).trans (List.toFinset_card_le _)
  refine ⟨hne, ?_⟩
  omega

/-- Six validators, each watched by all the others. -/
def watchfulEngine : ConsensusEngine where
  hashing := rollingHashing
  genesis := { sampleGenesisWithValidatorCount 6 with witnessCount := 5 }
  score _ _ := .one

/-- The aggregate for validator 1 of the attestations of the given members. -/
def aggregateOf (members : List ValidatorId) : ServiceAggregate :=
  let attestations := members.map fun v => signedServiceAttestation 1 v 2 {}
  { subjectValidatorId := 1, epoch := 2
    attestationRoot := serviceAttestationRoot rollingHashing attestations
    attestations, aggregateCounters := aggregateServiceCounters attestations }

theorem watchful_accepts : ∀ members ∈ [[2, 3, 4, 5], [3, 4, 5, 6]],
    watchfulEngine.validateServiceAggregate (aggregateOf members) = .ok () := by
  decide +kernel

/-- Members 2 to 5 and members 3 to 6 attest validator 1. -/
theorem watchful_aggregates_intersect :
    watchfulEngine.validateServiceAggregate (aggregateOf [2, 3, 4, 5]) = .ok () ∧
    watchfulEngine.validateServiceAggregate (aggregateOf [3, 4, 5, 6]) = .ok () ∧
    ((watchfulEngine.serviceCommitteeFor 2 1).length - 1) / 3 + 1 ≤
      ((watchfulEngine.serviceCommitteeFor 2 1).filter fun v =>
        v ∈ (aggregateOf [2, 3, 4, 5]).members ∧ v ∈ (aggregateOf [3, 4, 5, 6]).members).length := by
  have hfirst := watchful_accepts [2, 3, 4, 5] (by simp)
  have hsecond := watchful_accepts [3, 4, 5, 6] (by simp)
  exact ⟨hfirst, hsecond, (service_aggregates_intersect watchfulEngine (by decide) 2 1
    (aggregateOf [2, 3, 4, 5]) (aggregateOf [3, 4, 5, 6]) ⟨rfl, rfl⟩ ⟨rfl, rfl⟩ hfirst hsecond).2⟩

end ConsensusEngine

end Entangrid
