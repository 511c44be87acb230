import Entangrid.Node.Proof.OneVote
import Entangrid.Node.Proof.Quorum
import Entangrid.Node.Proof.RecordFiles
import Entangrid.Node.Proof.Termination

/-!
# Restoring evidence and certificates

What the loading steps of a start do with the files of records. The evidence always comes back: an
attestation of the file replaces what the lines before it hold, when it is restored as when it was
written, and the aggregates hold nothing new. The certificates of canonical blocks come back one
after the other, as long as their votes can be stored.

* `restoreServiceEvidence_run`: the attestations of the file are held afterwards.
* `restoreQuorumCertificates_ok`: a restoring that succeeds holds the last certificates of canonical
  blocks.
* `restoreQuorumCertificates_run`: it succeeds if every vote can be stored after the earlier ones.
-/

namespace Entangrid

open Proc (Always Moves)

variable {E : Env} {n n' : Node}

/-- The signing hash tells the attestations of a file apart. -/
def SigningHashesDiffer (H : Hashing) (file : List ServiceAttestation) : Prop :=
  ∀ a ∈ file, ∀ b ∈ file,
    serviceAttestationSigningHash H a = serviceAttestationSigningHash H b → a.unsigned = b.unsigned

/-! ## Attestations -/

section Attestations
variable {file : List ServiceAttestation} {a : ServiceAttestation}

theorem run_insertServiceAttestation_seen (persist : Bool)
    (h : serviceAttestationSigningHash E.hashing a ∈ n.seenServiceAttestations) :
    (insertServiceAttestation E a persist).run n = .ok false n := by
  unfold insertServiceAttestation
  rw [Proc.run_get_bind]
  exact congrArg (fun m => Proc.run m n) (if_pos (Std.ExtTreeSet.contains_iff_mem.2 h))

theorem run_insertServiceAttestation_new
    (hnew : serviceAttestationSigningHash E.hashing a ∉ n.seenServiceAttestations)
    (hreplaces : attestationReplaces E (n.attestation a.key a.committeeMemberId) a = true) :
    (insertServiceAttestation E a false).run n = .ok true (addServiceAttestation E a n) := by
  have hcontains : ¬n.seenServiceAttestations.contains
      (serviceAttestationSigningHash E.hashing a) = true :=
    fun h => hnew (Std.ExtTreeSet.contains_iff_mem.1 h)
  unfold insertServiceAttestation
  rw [Proc.run_get_bind, if_neg hcontains]
  exact congrArg (fun m => Proc.run m n) (if_pos hreplaces)

/-- Restoring attestations, one after the other. -/
def restoreAttestations (E : Env) (file : List ServiceAttestation) : NodeM Unit :=
  Proc.forEach file fun attestation => do
    NodeM.check (validateServiceAttestation E attestation)
    let _ ← insertServiceAttestation E attestation false
    pure ()

/-- Every line of the file is taken. -/
theorem restoreAttestations_run (hfile : AttestationFile E file)
    (hhashes : SigningHashesDiffer E.hashing file) (hheld : n.serviceAttestations = ∅)
    (hseen : n.seenServiceAttestations = ∅) :
    ∃ seen, (restoreAttestations E file).run n = .ok ()
        { n with serviceAttestations := attestationMap file, seenServiceAttestations := seen } ∧
      ∀ h, h ∈ seen ↔ ∃ a ∈ file, serviceAttestationSigningHash E.hashing a = h := by
  induction hfile with
  | nil =>
    refine ⟨∅, ?_, by simp⟩
    have hsame : n = { n with serviceAttestations := attestationMap [],
                              seenServiceAttestations := ∅ } := by
      rw [attestationMap, List.foldl_nil, ← hheld, ← hseen]
    exact congrArg (Out.ok ()) hsame
  | @concat file a hfile hvalid hreplaces ih =>
    obtain ⟨seen, hrun, hmem⟩ := ih fun x hx y hy =>
      hhashes x (List.mem_append_left _ hx) y (List.mem_append_left _ hy)
    refine ⟨seen.insert (serviceAttestationSigningHash E.hashing a), ?_, fun h => ?_⟩
    · have hnew : serviceAttestationSigningHash E.hashing a ∉ seen := by
        intro hin
        obtain ⟨b, hb, heq⟩ := (hmem _).1 hin
        exact hfile.notSeen hreplaces hb (hhashes b (List.mem_append_left _ hb) a (by simp) heq)
      have hinsert := run_insertServiceAttestation_new (E := E) (a := a)
        (n := { n with serviceAttestations := attestationMap file,
                       seenServiceAttestations := seen })
        hnew hreplaces
      refine (Proc.run_forEach_append file [a] _ n).trans ((Proc.run_bind_of_ok hrun).trans ?_)
      refine (Proc.run_bind_of_ok ((Proc.run_ofExcept_bind_of_ok hvalid).trans
        (Proc.run_bind_of_ok hinsert))).trans ?_
      rw [attestationMap_concat]
      rfl
    · rw [Std.ExtTreeSet.mem_insert, hmem]
      simp only [Std.compare_eq_iff_eq, List.mem_append, List.mem_singleton]
      constructor
      · rintro (rfl | ⟨b, hb, rfl⟩)
        · exact ⟨a, .inr rfl, rfl⟩
        · exact ⟨b, .inl hb, rfl⟩
      · rintro ⟨b, hb | rfl, rfl⟩
        · exact .inr ⟨b, hb, rfl⟩
        · exact .inl rfl

end Attestations

/-! ## Aggregates -/

/-- Attestations that were all seen change nothing. -/
theorem insertServiceAttestations_seen {attestations : List ServiceAttestation} (persist : Bool)
    (h : ∀ a ∈ attestations,
      serviceAttestationSigningHash E.hashing a ∈ n.seenServiceAttestations) :
    (insertServiceAttestations E persist attestations).run n = .ok false n := by
  induction attestations with
  | nil => rfl
  | cons a rest ih =>
    obtain ⟨ha, hrest⟩ := List.forall_mem_cons.1 h
    rw [insertServiceAttestations,
      Proc.run_bind_of_ok (run_insertServiceAttestation_seen persist ha),
      Proc.run_bind_of_ok (ih hrest)]
    rfl

/-- Only aggregates are added. -/
def AggregatesAdded (n n' : Node) : Prop := ∃ aggregates seen,
  n' = { n with serviceAggregates := aggregates, seenServiceAggregates := seen }

instance : IsPreorder Node AggregatesAdded where
  refl n := ⟨n.serviceAggregates, n.seenServiceAggregates, rfl⟩
  trans := by
    rintro _ _ _ ⟨_, _, rfl⟩ ⟨aggregates, seen, rfl⟩
    exact ⟨aggregates, seen, rfl⟩

theorem insertServiceAggregate_run_unpersisted (g : ServiceAggregate) :
    ∃ changed n', (insertServiceAggregate E g false).run n = .ok changed n' ∧
      AggregatesAdded n n' := by
  unfold insertServiceAggregate
  rw [Proc.run_get_bind]
  by_cases hheld : (n.seenServiceAggregates.contains (E.hashing.canonicalHash (.aggregate g)) ||
      ((n.serviceAggregates[(g.subjectValidatorId, g.epoch)]?).map fun a =>
        E.hashing.canonicalHash (.aggregate a) ==
          E.hashing.canonicalHash (.aggregate g)).getD false) = true
  · exact ⟨false, n, congrArg (fun m => Proc.run m n) (if_pos hheld), refl_of AggregatesAdded n⟩
  · exact ⟨true, addServiceAggregate E g n, congrArg (fun m => Proc.run m n) (if_neg hheld), _, _,
      rfl⟩

theorem mergeServiceAggregate_run_seen {g : ServiceAggregate}
    (h : ∀ a ∈ g.attestations,
      serviceAttestationSigningHash E.hashing a ∈ n.seenServiceAttestations) :
    ∃ changed n', (mergeServiceAggregate E g false).run n = .ok changed n' ∧
      AggregatesAdded n n' := by
  unfold mergeServiceAggregate
  rw [Proc.run_bind_of_ok (insertServiceAttestations_seen false h), Proc.run_get_bind]
  cases buildServiceAggregate E n g.subjectValidatorId g.epoch with
  | none => exact ⟨false, n, rfl, refl_of AggregatesAdded n⟩
  | some canonical =>
    obtain ⟨changed, n', hrun, hadded⟩ :=
      insertServiceAggregate_run_unpersisted (E := E) (n := n) canonical
    exact ⟨false || changed, n', (Proc.run_bind_of_ok hrun).trans rfl, hadded⟩

/-- The aggregates of a file whose attestations were all seen. -/
theorem restoreAggregates_run {file : List ServiceAggregate}
    (hvalid : ∀ g ∈ file, validateServiceAggregate E g = .ok ())
    (hseen : ∀ g ∈ file, ∀ a ∈ g.attestations,
      serviceAttestationSigningHash E.hashing a ∈ n.seenServiceAttestations) :
    ∃ n', (Proc.forEach file fun aggregate => do
        NodeM.check (validateServiceAggregate E aggregate)
        let _ ← mergeServiceAggregate E aggregate false
        pure () : NodeM Unit).run n = .ok () n' ∧ AggregatesAdded n n' := by
  induction file generalizing n with
  | nil => exact ⟨n, rfl, refl_of AggregatesAdded n⟩
  | cons g file ih =>
    obtain ⟨hg, hvalid⟩ := List.forall_mem_cons.1 hvalid
    obtain ⟨hgseen, hseen⟩ := List.forall_mem_cons.1 hseen
    obtain ⟨changed, m, hrun, hm⟩ := mergeServiceAggregate_run_seen hgseen
    obtain ⟨n', hrest, hn'⟩ := ih (n := m) hvalid <| by
      obtain ⟨_, _, rfl⟩ := hm
      exact hseen
    refine ⟨n', ?_, trans_of AggregatesAdded hm hn'⟩
    exact (Proc.run_bind_of_ok ((Proc.run_ofExcept_bind_of_ok hg).trans
      (Proc.run_bind_of_ok hrun))).trans hrest

/-- The evidence a node is restored with. -/
def EvidenceRestored (attestations : List ServiceAttestation) (n n' : Node) : Prop :=
  ∃ seen aggregates seenAggregates, n' = { n with
    serviceAttestations := attestationMap attestations, seenServiceAttestations := seen
    serviceAggregates := aggregates, seenServiceAggregates := seenAggregates }

/-- **The evidence comes back.** -/
theorem restoreServiceEvidence_run {files : RecordFiles} {m : Node} (h : EvidenceFiled E files m)
    (hhashes : SigningHashesDiffer E.hashing files.serviceAttestations)
    (hheld : n.serviceAttestations = ∅) (hseen : n.seenServiceAttestations = ∅) :
    ∃ n', (restoreServiceEvidence E files.serviceAttestations files.serviceAggregates).run n =
      .ok () n' ∧ EvidenceRestored files.serviceAttestations n n' := by
  unfold restoreServiceEvidence
  cases hv2 : E.v2 with
  | false =>
    refine ⟨n, rfl, n.seenServiceAttestations, n.serviceAggregates, n.seenServiceAggregates, ?_⟩
    rw [h.protocol hv2, attestationMap, List.foldl_nil, ← hheld]
  | true =>
    obtain ⟨seen, hrun, hmem⟩ := restoreAttestations_run h.file hhashes hheld hseen
    have hvalid : ∀ g ∈ files.serviceAggregates, validateServiceAggregate E g = .ok () := by
      intro g hg
      obtain ⟨hconsensus, hattestations⟩ := h.aggregates g hg
      simp only [validateServiceAggregate, except_bind_ok, forM_ok]
      exact ⟨(), hconsensus, fun a ha => h.file.valid (hattestations a ha)⟩
    obtain ⟨n', hrest, aggregates, seenAggregates, rfl⟩ := restoreAggregates_run
      (n := { n with serviceAttestations := attestationMap files.serviceAttestations,
                     seenServiceAttestations := seen }) hvalid fun g hg a ha =>
        (hmem _).2 ⟨a, (h.aggregates g hg).2 a ha, rfl⟩
    exact ⟨_, (Proc.run_bind_of_ok hrun).trans hrest, seen, aggregates, seenAggregates, rfl⟩

/-! ## Votes -/

/-- Only votes change, and what is recorded off the files. -/
def VotesChanged (n n' : Node) : Prop := ∃ votes buffered new,
  n' = { n with
    proposalVotes := votes, bufferedProposalVotes := buffered, effects := new ++ n.effects } ∧
    ∀ effect ∈ new, effect.ofRecords = false

instance : IsPreorder Node VotesChanged where
  refl n := ⟨n.proposalVotes, n.bufferedProposalVotes, [], rfl, by simp⟩
  trans := by
    rintro _ _ _ ⟨_, _, new, rfl, hnew⟩ ⟨votes, buffered, newer, rfl, hnewer⟩
    refine ⟨votes, buffered, newer ++ new, by rw [List.append_assoc], fun effect he => ?_⟩
    exact (List.mem_append.1 he).elim (hnewer effect) (hnew effect)

theorem storeProposalVote_votesChanged (vote : ProposalVote) :
    Always VotesChanged (storeProposalVote E vote) := fun n => by
  unfold Moves storeProposalVote
  rw [Proc.run_bind, run_resolveConflictingProposalVote]
  cases n.conflictingVotes E vote with
  | error e => exact refl_of VotesChanged n
  | ok conflicts =>
    have hdropped : VotesChanged n (n.withoutVotes conflicts) := by
      rw [Node.withoutVotes_eq]
      exact ⟨_, _, [], rfl, by simp⟩
    refine storeVoteUnlessHeld_moves hdropped fun _ => trans_of VotesChanged hdropped ?_
    exact ⟨_, _, [_], rfl, by simp [Effect.ofRecords]⟩

theorem storeCertifiedVotes_votesChanged (votes : List ProposalVote) :
    Always VotesChanged (storeCertifiedVotes E votes) :=
  .forEach fun vote => .bind (.modify fun _ => ⟨_, _, [], rfl, by simp⟩) fun _ =>
    (storeProposalVote_votesChanged vote).thenPure

/-- The vote `y` can be stored after `x` on the chain of `n`: they are one vote, or a certificate of
`y` sends `x` away, or the two do not conflict. -/
def StorableAfter (n : Node) (x y : ProposalVote) : Prop :=
  x.validatorId = y.validatorId →
    if x.blockHash = y.blockHash then x.signature = y.signature
    else x.blockNumber = y.blockNumber ∨ (¬(x.epoch = y.epoch ∧ x.slot = y.slot) ∧
      n.proposalVoteBranchesAreCompatible x.blockHash y.blockHash = true)

/-- Every held vote is one of these, under its block and its validator. -/
def HeldFrom (votes : List ProposalVote) (n : Node) : Prop :=
  ∀ k v x, n.Found k v x → x ∈ votes ∧ x.blockHash = k ∧ x.validatorId = v

/-- The vote passes the check against the block of the chain that it names. -/
def CheckedOn (E : Env) (n : Node) (x : ProposalVote) : Prop :=
  ∃ block, findBlock n.blocks x.blockHash = some block ∧
    validateProposalVoteForBlock E x block = .ok ()

/-- Votes of one validator for one block differ in the signature only. -/
theorem CheckedOn.signingHash_eq {x y : ProposalVote} (hx : CheckedOn E n x) (hy : CheckedOn E n y)
    (hvoter : x.validatorId = y.validatorId) (hhash : x.blockHash = y.blockHash) :
    proposalVoteSigningHash E.hashing x = proposalVoteSigningHash E.hashing y := by
  obtain ⟨block, hblock, hvalid⟩ := hx
  obtain ⟨block', hblock', hvalid'⟩ := hy
  rw [hhash, hblock'] at hblock
  obtain rfl := Option.some.inj hblock
  obtain ⟨-, -, hnumber, hepoch, hslot⟩ := validateProposalVoteForBlock_ok hvalid
  obtain ⟨-, -, hnumber', hepoch', hslot'⟩ := validateProposalVoteForBlock_ok hvalid'
  simp only [proposalVoteSigningHash, hvoter, hhash, hnumber, hepoch, hslot, hnumber', hepoch',
    hslot']

/-- The block lists are those of `m`. -/
structure SameBlocks (m n : Node) : Prop where
  blocks : n.blocks = m.blocks
  known : n.knownBlocks = m.knownBlocks

theorem SameBlocks.of_votesChanged {m : Node} (h : SameBlocks m n) (hchanged : VotesChanged n n') :
    SameBlocks m n' := by
  obtain ⟨_, _, _, rfl, -⟩ := hchanged
  exact ⟨h.blocks, h.known⟩

theorem SameBlocks.compatible {m : Node} (h : SameBlocks m n) (k k' : HashBytes) :
    n.proposalVoteBranchesAreCompatible k k' = m.proposalVoteBranchesAreCompatible k k' := by
  simp only [Node.proposalVoteBranchesAreCompatible, Node.branchRelation,
    Node.buildChainToTip_congr h.known]

section Votes
variable {m : Node} {done : List ProposalVote} {vote : ProposalVote}

/-- No held vote rejects a vote that can be stored after all of them. -/
theorem conflictingVotes_ok (hheld : HeldFrom done n) (hblocks : SameBlocks m n)
    (hfit : ∀ x ∈ done, StorableAfter m x vote) :
    ∃ conflicts, (n.removeConflictingVotesForCertifiedVote vote).conflictingVotes E vote =
      .ok conflicts := by
  have hnone : ¬((n.removeConflictingVotesForCertifiedVote vote).heldVotesOf vote.validatorId).any
      (fun existing =>
        (n.removeConflictingVotesForCertifiedVote vote).voteConflict E existing vote = .reject) =
        true := by
    intro hany
    obtain ⟨x, hx, hreject⟩ := List.any_eq_true.1 hany
    obtain ⟨k, hfound⟩ := Node.mem_heldVotesOf_iff.1 hx
    obtain ⟨hdone, hk, hvoter⟩ := hheld _ _ _ ((Node.votesShrink_dropConflicting vote).found hfound)
    have hkept : ¬VoteMap.Conflicts vote k vote.validatorId x :=
      hfound.elim (fun h => (VoteMap.lookup_removeConflicting.1 h).2)
        fun h => (VoteMap.lookup_removeConflicting.1 h).2
    have hfits := hfit x hdone hvoter
    have hreject := of_decide_eq_true hreject
    unfold Node.voteConflict at hreject
    split_ifs at hreject with hsame hreplace hapart
    · rw [if_neg hsame] at hfits
      have hnumber : x.blockNumber ≠ vote.blockNumber := fun hnumber =>
        hkept ⟨hk ▸ hsame, rfl, hsame, hnumber⟩
      obtain ⟨hslot, hcompatible⟩ := hfits.resolve_left hnumber
      have hkeeps : SameBlocks m (n.removeConflictingVotesForCertifiedVote vote) :=
        ⟨hblocks.blocks, hblocks.known⟩
      exact hapart ⟨hnumber, hslot, (hkeeps.compatible _ _).trans hcompatible⟩
  exact ⟨_, if_neg hnone⟩

/-- One vote of a certificate is stored. -/
theorem storeCertifiedVote_run (hheld : HeldFrom done n) (hblocks : SameBlocks m n)
    (hchecked : ∀ x ∈ done, CheckedOn E m x) (hvote : CheckedOn E m vote)
    (hfit : ∀ x ∈ done, StorableAfter m x vote) :
    ∃ changed n', (storeProposalVote E vote).run (n.removeConflictingVotesForCertifiedVote vote) =
      .ok changed n' ∧ HeldFrom (done ++ [vote]) n' := by
  obtain ⟨conflicts, hconflicts⟩ := conflictingVotes_ok (E := E) hheld hblocks hfit
  have hkept : HeldFrom done
      ((n.removeConflictingVotesForCertifiedVote vote).withoutVotes conflicts) := fun k v x hx =>
    hheld k v x ((Node.votesShrink_dropConflicting vote).found
      ((Node.votesShrink_withoutVotes conflicts).found hx))
  have hresolved := run_resolveConflictingProposalVote (E := E)
    (n := n.removeConflictingVotesForCertifiedVote vote) vote
  rw [hconflicts] at hresolved
  unfold storeProposalVote
  rw [Proc.run_bind_of_ok hresolved, Proc.run_get_bind]
  generalize (n.removeConflictingVotesForCertifiedVote vote).withoutVotes conflicts = s at hkept ⊢
  unfold storeVoteUnlessHeld
  cases hlookup : VoteMap.lookup s.proposalVotes vote.blockHash vote.validatorId with
  | none =>
    refine ⟨true, s.addVote vote, rfl, fun k v x hx => ?_⟩
    rw [Node.Found, Node.addVote_proposalVotes, VoteMap.lookup_store] at hx
    split_ifs at hx with hplace
    · rcases hx with hx | hx
      · obtain rfl := Option.some.inj hx
        exact ⟨by simp, hplace.1.symm, hplace.2.symm⟩
      · exact (hkept k v x (.inr hx)).imp_left (List.mem_append_left _)
    · exact (hkept k v x hx).imp_left (List.mem_append_left _)
  | some held =>
    obtain ⟨hdone, hhash, hvoter⟩ := hkept _ _ _ (.inl hlookup)
    have hfits := hfit held hdone hvoter
    rw [if_pos hhash] at hfits
    refine ⟨false, s, ?_, fun k v x hx => (hkept k v x hx).imp_left (List.mem_append_left _)⟩
    dsimp only
    rw [if_pos ⟨(hchecked held hdone).signingHash_eq hvote hvoter hhash, hfits⟩]
    rfl

theorem storeCertifiedVotes_run {votes : List ProposalVote} (hheld : HeldFrom done n)
    (hblocks : SameBlocks m n) (hchecked : ∀ x ∈ done ++ votes, CheckedOn E m x)
    (hfit : (done ++ votes).Pairwise (StorableAfter m)) :
    ∃ n', (storeCertifiedVotes E votes).run n = .ok () n' ∧ HeldFrom (done ++ votes) n' := by
  induction votes generalizing n done with
  | nil => exact ⟨n, rfl, by simpa using hheld⟩
  | cons vote votes ih =>
    obtain ⟨changed, s, hrun, hs⟩ := storeCertifiedVote_run hheld hblocks
      (fun x hx => hchecked x (List.mem_append_left _ hx)) (hchecked vote (by simp))
      fun x hx => (List.pairwise_append.1 hfit).2.2 x hx vote List.mem_cons_self
    have hround : (do
        Proc.modify (·.removeConflictingVotesForCertifiedVote vote)
        let _ ← storeProposalVote E vote
        pure () : NodeM Unit).run n = .ok () s :=
      (Proc.run_bind_of_ok (Proc.run_modify _ n)).trans (Proc.run_bind_of_ok hrun)
    have hchanged : VotesChanged n s := ((Always.bind (.modify fun _ => ⟨_, _, [], rfl, by simp⟩)
      fun _ => (storeProposalVote_votesChanged (E := E) vote).thenPure) n).ok hround
    obtain ⟨n', hrest, hn'⟩ := ih hs (hblocks.of_votesChanged hchanged)
      (by simpa using hchecked) (by simpa using hfit)
    exact ⟨n', (Proc.run_bind_of_ok hround).trans hrest, by simpa using hn'⟩

end Votes

/-! ## Certificates -/

/-- The certificates of a file for blocks of a chain. -/
def canonicalCertificates (blocks : List Block) (file : List QuorumCertificate) :
    List QuorumCertificate :=
  file.filter fun qc => hasBlock blocks qc.blockHash

/-- The certificates of the file for blocks of the chain were inserted. -/
def CertificatesRestored (file : List QuorumCertificate) (n n' : Node) : Prop :=
  ∃ votes buffered new, n' = { n with
    proposalVotes := votes, bufferedProposalVotes := buffered
    quorumCertificates := (canonicalCertificates n.blocks file).foldl
      (fun held qc => held.insert qc.blockHash qc) n.quorumCertificates
    effects := new ++ n.effects } ∧ ∀ effect ∈ new, effect.ofRecords = false

theorem VotesChanged.certificatesRestored (h : VotesChanged n n') :
    CertificatesRestored [] n n' := h

theorem CertificatesRestored.append {file file' : List QuorumCertificate} {s : Node}
    (h : CertificatesRestored file n s) (h' : CertificatesRestored file' s n') :
    CertificatesRestored (file ++ file') n n' := by
  obtain ⟨_, _, new, rfl, hnew⟩ := h
  obtain ⟨votes, buffered, newer, rfl, hnewer⟩ := h'
  refine ⟨votes, buffered, newer ++ new, ?_, fun effect he => ?_⟩
  · simp only [canonicalCertificates, List.filter_append, List.foldl_append, List.append_assoc]
  · exact (List.mem_append.1 he).elim (hnewer effect) (hnew effect)

section Certificates
variable {qc : QuorumCertificate} {file : List QuorumCertificate}

theorem canonicalCertificates_of_none {blocks : List Block}
    (h : findBlock blocks qc.blockHash = none) : canonicalCertificates blocks [qc] = [] := by
  have hnone : hasBlock blocks qc.blockHash = false := hasBlock_eq_false.2 (findBlock_eq_none.1 h)
  simp [canonicalCertificates, hnone]

theorem canonicalCertificates_of_some {blocks : List Block} {block : Block}
    (h : findBlock blocks qc.blockHash = some block) :
    canonicalCertificates blocks [qc] = [qc] := by
  have hfound : hasBlock blocks qc.blockHash = true :=
    hasBlock_iff.2 ⟨block, (findBlock_eq_some h).1, (findBlock_eq_some h).2⟩
  simp [canonicalCertificates, hfound]

theorem restoreQuorumCertificate_ok (hrun : (restoreQuorumCertificate E qc).run n = .ok () n') :
    CertificatesRestored [qc] n n' := by
  unfold restoreQuorumCertificate at hrun
  rw [Proc.run_get_bind] at hrun
  cases hfind : findBlock n.blocks qc.blockHash with
  | none =>
    rw [show n.blocks.find? (·.blockHash == qc.blockHash) = none from hfind] at hrun
    cases hrun
    refine ⟨n.proposalVotes, n.bufferedProposalVotes, [], ?_, by simp⟩
    rw [canonicalCertificates_of_none hfind]
    rfl
  | some block =>
    rw [show n.blocks.find? (·.blockHash == qc.blockHash) = some block from hfind] at hrun
    obtain ⟨_, -, hrun⟩ := Proc.ofExcept_bind_eq_ok hrun
    obtain ⟨_, s, hstore, hrun⟩ := Proc.run_bind_eq_ok hrun
    obtain ⟨votes, buffered, new, rfl, hnew⟩ :=
      (storeCertifiedVotes_votesChanged qc.votes n).ok hstore
    cases hrun
    refine ⟨votes, buffered, new, ?_, hnew⟩
    rw [canonicalCertificates_of_some hfind]
    rfl

theorem restoreLoop_ok (hrun : (Proc.forEach file (restoreQuorumCertificate E)).run n = .ok () n') :
    CertificatesRestored file n n' := by
  induction file generalizing n with
  | nil =>
    cases hrun
    exact (refl_of VotesChanged n').certificatesRestored
  | cons qc file ih =>
    obtain ⟨_, s, hqc, hrun⟩ := Proc.run_bind_eq_ok hrun
    exact (restoreQuorumCertificate_ok hqc).append (ih hrun)

theorem votesChanged_prune (certifiedHash : HashBytes) (certifiedHeight : Nat) :
    VotesChanged n (n.pruneVotesNotExtendingCertifiedBlock certifiedHash certifiedHeight) :=
  ⟨_, _, [], rfl, by simp⟩

/-- **What a successful restoring holds**: of every canonical block the last certificate. -/
theorem restoreQuorumCertificates_ok (hrun : (restoreQuorumCertificates E file).run n = .ok () n') :
    CertificatesRestored file n n' := by
  obtain ⟨_, s, hloop, hrun⟩ := Proc.run_bind_eq_ok hrun
  have hs := restoreLoop_ok hloop
  rw [Proc.run_get_bind] at hrun
  cases hhighest : s.highestLocalQc with
  | none =>
    rw [hhighest] at hrun
    cases hrun
    exact hs
  | some highest =>
    rw [hhighest] at hrun
    cases hrun
    have hpruned := hs.append
      (votesChanged_prune highest.blockHash highest.blockNumber).certificatesRestored
    rwa [List.append_nil] at hpruned

variable {m : Node} {done : List ProposalVote}

theorem restoreQuorumCertificate_run (hheld : HeldFrom done n) (hblocks : SameBlocks m n)
    (hvalid : ∀ block, findBlock m.blocks qc.blockHash = some block →
      validateQuorumCertificateForBlock E qc block = .ok ())
    (hchecked : ∀ x ∈ done ++ (canonicalCertificates m.blocks [qc]).flatMap (·.votes),
      CheckedOn E m x)
    (hfit : (done ++ (canonicalCertificates m.blocks [qc]).flatMap (·.votes)).Pairwise
      (StorableAfter m)) :
    ∃ n', (restoreQuorumCertificate E qc).run n = .ok () n' ∧
      HeldFrom (done ++ (canonicalCertificates m.blocks [qc]).flatMap (·.votes)) n' := by
  unfold restoreQuorumCertificate
  rw [Proc.run_get_bind, hblocks.blocks]
  cases hfind : findBlock m.blocks qc.blockHash with
  | none =>
    rw [show m.blocks.find? (·.blockHash == qc.blockHash) = none from hfind,
      canonicalCertificates_of_none hfind]
    exact ⟨n, rfl, by simpa using hheld⟩
  | some block =>
    rw [canonicalCertificates_of_some hfind, List.flatMap_singleton] at hchecked hfit ⊢
    rw [show m.blocks.find? (·.blockHash == qc.blockHash) = some block from hfind]
    obtain ⟨s, hrun, hs⟩ := storeCertifiedVotes_run hheld hblocks hchecked hfit
    exact ⟨s.addQc qc, (Proc.run_ofExcept_bind_of_ok (hvalid block hfind)).trans
      ((Proc.run_bind_of_ok hrun).trans rfl), hs⟩

theorem canonicalCertificates_cons (blocks : List Block) :
    canonicalCertificates blocks (qc :: file) =
      canonicalCertificates blocks [qc] ++ canonicalCertificates blocks file :=
  List.filter_append [qc] file

/-- The votes of a certificate that passes the check against its block pass theirs. -/
theorem checkedOn_of_canonical
    (hvalid : ∀ qc ∈ file, ∀ block, findBlock m.blocks qc.blockHash = some block →
      validateQuorumCertificateForBlock E qc block = .ok ()) {x : ProposalVote}
    (hx : x ∈ (canonicalCertificates m.blocks file).flatMap (·.votes)) : CheckedOn E m x := by
  obtain ⟨qc, hqc, hx⟩ := List.mem_flatMap.1 hx
  obtain ⟨hmem, hcanonical⟩ := List.mem_filter.1 hqc
  cases hfind : findBlock m.blocks qc.blockHash with
  | none =>
    rw [hasBlock_eq_false.2 (findBlock_eq_none.1 hfind)] at hcanonical
    cases hcanonical
  | some block =>
    obtain ⟨hhash, hvote⟩ := validateQuorumCertificateForBlock_vote (hvalid qc hmem block hfind) hx
    exact ⟨block, hhash ▸ hfind, hvote⟩

theorem restoreLoop_run (hheld : HeldFrom done n) (hblocks : SameBlocks m n)
    (hvalid : ∀ qc ∈ file, ∀ block, findBlock m.blocks qc.blockHash = some block →
      validateQuorumCertificateForBlock E qc block = .ok ())
    (hchecked : ∀ x ∈ done, CheckedOn E m x)
    (hfit : (done ++ (canonicalCertificates m.blocks file).flatMap (·.votes)).Pairwise
      (StorableAfter m)) :
    ∃ n', (Proc.forEach file (restoreQuorumCertificate E)).run n = .ok () n' := by
  induction file generalizing n done with
  | nil => exact ⟨n, rfl⟩
  | cons qc file ih =>
    obtain ⟨hqc, hrest⟩ := List.forall_mem_cons.1 hvalid
    rw [canonicalCertificates_cons, List.flatMap_append, ← List.append_assoc] at hfit
    have hchecked' : ∀ x ∈ done ++ (canonicalCertificates m.blocks [qc]).flatMap (·.votes),
        CheckedOn E m x := fun x hx => (List.mem_append.1 hx).elim (hchecked x) <|
      checkedOn_of_canonical fun qc' hqc' => by
        obtain rfl := List.mem_singleton.1 hqc'
        exact hqc
    obtain ⟨s, hrun, hs⟩ := restoreQuorumCertificate_run hheld hblocks hqc hchecked'
      (List.pairwise_append.1 hfit).1
    obtain ⟨_, _, _, rfl, -⟩ := restoreQuorumCertificate_ok hrun
    obtain ⟨n', hloop⟩ := ih hs ⟨hblocks.blocks, hblocks.known⟩ hrest hchecked' hfit
    exact ⟨n', (Proc.run_bind_of_ok hrun).trans hloop⟩

/-- **Restoring succeeds** if the votes of the canonical certificates can be stored one after the
other. -/
theorem restoreQuorumCertificates_run (hheld : HeldFrom [] n) (hblocks : SameBlocks m n)
    (hvalid : ∀ qc ∈ file, ∀ block, findBlock m.blocks qc.blockHash = some block →
      validateQuorumCertificateForBlock E qc block = .ok ())
    (hfit : ((canonicalCertificates m.blocks file).flatMap (·.votes)).Pairwise (StorableAfter m)) :
    ∃ n', (restoreQuorumCertificates E file).run n = .ok () n' := by
  obtain ⟨s, hloop⟩ := restoreLoop_run hheld hblocks hvalid (by simp) hfit
  unfold restoreQuorumCertificates
  rw [Proc.run_bind_of_ok hloop, Proc.run_get_bind]
  cases s.highestLocalQc with
  | none => exact ⟨s, rfl⟩
  | some highest => exact ⟨_, rfl⟩

end Certificates

end Entangrid
