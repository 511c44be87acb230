import Entangrid.Node.Cluster
import Entangrid.Node.Proof.OneVote
import Entangrid.Node.Proof.Quorum

/-!
# Certificates of one height

In a network where every node runs this code, every vote of a certificate was signed by its voter's
own node. So two certificates of one height for different blocks take more than a third of the nodes
to have signed votes for both, which the replacement of votes allows.
-/

namespace Entangrid

variable {E : Env} {A : Source} {n n' : Node}

/-! ## The votes that leave a node -/

/-- Enough validators have votes for the block of a certificate, all of them traced. -/
def Backed (E : Env) (A : Source) (n : Node) (qc : QuorumCertificate) : Prop :=
  ∃ voters : Finset ValidatorId, voters.Nonempty ∧ voters ⊆ genesisIds E ∧
    quorumCertificateThreshold E.genesis.validators.length ≤ voters.card ∧
    ∀ v ∈ voters, ∃ x, A.Vote n x ∧ x.validatorId = v ∧ x.blockHash = qc.blockHash ∧
      x.blockNumber = qc.blockNumber

/-- The votes that leave a node are traced, and so are those of the certificates it builds. -/
structure Traced (E : Env) (A : Source) (n : Node) : Prop where
  voteInv : VoteInv E n
  votes : ∀ vote ∈ n.broadcastVotes, A.Vote n vote
  certificates : ∀ qc ∈ n.broadcastQcs, ∀ vote ∈ qc.votes, A.Vote n vote
  built : ∀ qc ∈ n.builtQcs, Backed E A n qc

theorem Backed.mono {qc : QuorumCertificate} (h : Backed E A n qc)
    (he : n.effects <:+ n'.effects) : Backed E A n' qc := by
  obtain ⟨voters, hne, hsub, hcard, hvotes⟩ := h
  refine ⟨voters, hne, hsub, hcard, fun v hv => ?_⟩
  obtain ⟨x, hx, hrest⟩ := hvotes v hv
  exact ⟨x, .mono he hx, hrest⟩

/-- The voters of an assembled certificate are distinct validators. -/
theorem backed_of_assembledQc (hc : A.Covers n) (hv : VoteInv E n) {qc : QuorumCertificate}
    (h : assembledQc E n qc.blockHash = some qc) (hwf : qc.isWellFormed E.hashing = true) :
    Backed E A n qc := by
  obtain ⟨block, byValidator, -, hvotes, hsize, hqc⟩ := assembledQc_eq_some h
  have hfound {v : ValidatorId} {x : ProposalVote} (hx : byValidator[v]? = some x) :
      n.Found qc.blockHash v x := .inl (VoteMap.lookup_eq_some_iff.2 ⟨byValidator, hvotes, hx⟩)
  have hkeys {v : ValidatorId} (hmem : v ∈ byValidator.keys.toFinset) :
      ∃ x, byValidator[v]? = some x := by
    rw [List.mem_toFinset, Std.ExtTreeMap.mem_keys] at hmem
    exact Option.isSome_iff_exists.1 (Std.ExtTreeMap.mem_iff_isSome_getElem?.1 hmem)
  have hvotes' : qc.votes = byValidator.toList.map (·.2) := by rw [hqc]
  simp only [QuorumCertificate.isWellFormed, Bool.and_eq_true, List.all_eq_true, beq_iff_eq,
    Bool.not_eq_true', List.isEmpty_eq_false_iff_exists_mem] at hwf
  refine ⟨byValidator.keys.toFinset, ?_, fun v hmem => ?_, ?_, fun v hmem => ?_⟩
  · obtain ⟨x, hx⟩ := hwf.1.1
    obtain ⟨⟨v, x'⟩, hmem, -⟩ := List.mem_map.1 (hvotes' ▸ hx)
    refine ⟨v, List.mem_toFinset.2 (Std.ExtTreeMap.mem_keys.2 ?_)⟩
    rw [Std.ExtTreeMap.mem_iff_isSome_getElem?,
      Std.ExtTreeMap.mem_toList_iff_getElem?_eq_some.1 hmem]
    rfl
  · obtain ⟨x, hx⟩ := hkeys hmem
    have := (validateProposalVoteSignatureAndSigner_ok.1 (hv.signer _ _ _ (hfound hx))).1
    rwa [(hv.keyed _ _ _ (hfound hx)).2] at this
  · rw [List.toFinset_card_of_nodup Std.ExtTreeMap.nodup_keys, Std.ExtTreeMap.length_keys]
    exact hsize
  · obtain ⟨x, hx⟩ := hkeys hmem
    have hx' := hwf.2 x (hvotes' ▸ List.mem_map.2
      ⟨(v, x), Std.ExtTreeMap.mem_toList_iff_getElem?_eq_some.2 hx, rfl⟩)
    exact ⟨x, hc.votes x ⟨_, _, hfound hx⟩, (hv.keyed _ _ _ (hfound hx)).2, hx'.1.1.1, hx'.1.1.2⟩

theorem Traced.step (hc : A.Covers n) (h : Traced E A n) (hstep : Step E A n n') :
    Traced E A n' := by
  have hsuffix := hstep.effects_suffix
  refine ⟨h.voteInv.step hstep, fun vote hvote => ?_, fun qc hqc vote hvote => ?_, fun qc hqc => ?_⟩
  · rcases hstep.effect_new (Node.mem_broadcastVotes.1 hvote) (by simp) (by simp) with hold | hguard
    · exact .mono hsuffix (h.votes vote (Node.mem_broadcastVotes.2 hold))
    · exact .mono hsuffix (.inr hguard.1)
  · rcases hstep.effect_new (Node.mem_broadcastQcs.1 hqc) (by simp) (by simp) with hold | hguard
    · exact .mono hsuffix (h.certificates qc (Node.mem_broadcastQcs.2 hold) vote hvote)
    · exact .mono hsuffix (hguard vote hvote)
  · rcases hstep.effect_new (Node.mem_builtQcs.1 hqc) (by simp) (by simp) with hold | hguard
    · exact (h.built qc (Node.mem_builtQcs.2 hold)).mono hsuffix
    · exact (backed_of_assembledQc hc h.voteInv hguard.1 hguard.2).mono hsuffix

theorem Traced.steps (hc : A.Covers n) (h : Traced E A n) (hsteps : Steps E A n n') :
    Traced E A n' := by
  induction hsteps with
  | refl => exact h
  | tail hsteps hlast ih => exact ih.step (Steps.covers hsteps hc) hlast

theorem Traced.fresh (slot : Option Slot) : Traced E A (Node.fresh E slot) where
  voteInv := .fresh slot
  votes := by simp [Node.broadcastVotes, Node.fresh]
  certificates := by simp [Node.broadcastQcs, Node.fresh]
  built := by simp [Node.builtQcs, Node.fresh]

/-! ## The network -/

namespace Cluster

variable {C : Cluster} {s : ClusterState}

/-- The votes signed by the nodes they name. -/
def source (s : ClusterState) : Source where
  votes := {x | x ∈ (s x.validatorId).signedVotes}

/-- Every vote of the network was signed by the node it names. -/
def TracedAll (C : Cluster) (s : ClusterState) : Prop :=
  ∀ i, (source s).Covers (s i) ∧ Traced (C.env i) (source s) (s i)

theorem signed_of_vote (h : TracedAll C s) {i : ValidatorId} {x : ProposalVote}
    (hx : (source s).Vote (s i) x) : x ∈ (s x.validatorId).signedVotes := by
  rcases hx with hx | hx
  · exact hx
  · have hown := (h i).2.voteInv.own x hx
    rw [C.me i] at hown
    rwa [hown]

/-- A delivered message carries votes that their voters signed. -/
theorem admits (h : TracedAll C s) {event : Event} (hevent : Delivers s event) (n : Node) :
    (source s).Admits E n event where
  votes vote hvote := by
    cases event with
    | received sender payload =>
      cases payload with
      | proposalVote x =>
        obtain rfl : vote = x := by simpa [Event.votes] using hvote
        exact signed_of_vote h ((h sender).2.votes vote hevent)
      | quorumCertificate qc => exact signed_of_vote h ((h sender).2.certificates qc hevent vote hvote)
      | blockProposal => simp [Event.votes] at hvote
      | _ => exact hevent.elim
    | _ => simp [Event.votes] at hvote

/-- More votes may be known as more are signed. -/
theorem traced_mono {A A' : Source} (hA : A.votes ⊆ A'.votes) (hb : A'.blocks = Set.univ)
    (h : A.Covers n ∧ Traced E A n) : A'.Covers n ∧ Traced E A' n := by
  refine ⟨⟨fun _ _ => .inl (hb ▸ trivial), fun _ _ => .inl (hb ▸ trivial),
    fun x hx => (h.1.votes x hx).imp_left fun h => hA h,
    fun k qc hqc x hx => (h.1.certificates k qc hqc x hx).imp_left fun h => hA h⟩,
    h.2.voteInv, fun x hx => (h.2.votes x hx).imp_left fun h => hA h,
    fun qc hqc x hx => (h.2.certificates qc hqc x hx).imp_left fun h => hA h, fun qc hqc => ?_⟩
  obtain ⟨voters, hne, hsub, hcard, hvotes⟩ := h.2.built qc hqc
  refine ⟨voters, hne, hsub, hcard, fun v hv => ?_⟩
  obtain ⟨x, hx, hrest⟩ := hvotes v hv
  exact ⟨x, hx.imp_left fun h => hA h, hrest⟩

theorem tracedAll (hs : C.Reachable s) : TracedAll C s := by
  induction hs with
  | fresh slot => exact fun i => ⟨Source.covers_fresh _, .fresh _⟩
  | @handle s n' fuel i event _ hevent hrun ih =>
    have hsteps := (handleEvent_moves fuel (admits ih hevent (s i))).of_state? hrun (ih i).1
    have hsource : (source s).votes ⊆ (source (Function.update s i n')).votes := fun x hx => by
      by_cases hi : x.validatorId = i
      · simp only [source, Set.mem_ofPred_eq, hi, Function.update_self] at hx ⊢
        exact (hsteps.effects_suffix.filterMap _).mem hx
      · simpa only [source, Set.mem_ofPred_eq, Function.update_of_ne hi] using hx
    intro k
    by_cases hk : k = i
    · subst hk
      rw [Function.update_self]
      exact traced_mono hsource rfl ⟨Steps.covers hsteps (ih k).1, (ih k).2.steps (ih k).1 hsteps⟩
    · rw [Function.update_of_ne hk]
      exact traced_mono hsource rfl (ih k)

/-- **For two certificates of one height, more than a third of the validators signed votes for the
blocks of both.** For different blocks these are double votes. -/
theorem certificates_share_signers (C : Cluster) (s : ClusterState) (hs : C.Reachable s)
    (i j : ValidatorId) (x y : QuorumCertificate) (hx : x ∈ (s i).builtQcs)
    (hy : y ∈ (s j).builtQcs) (hnumber : x.blockNumber = y.blockNumber) :
    ∃ both : Finset ValidatorId, C.genesis.validators.length < 3 * both.card ∧
      ∀ v ∈ both, v ∈ C.genesis.validators.map (·.validatorId) ∧
        (∃ a ∈ (s v).signedVotes, a.blockHash = x.blockHash ∧ a.blockNumber = x.blockNumber) ∧
        ∃ b ∈ (s v).signedVotes, b.blockHash = y.blockHash ∧ b.blockNumber = x.blockNumber := by
  have htraced := tracedAll hs
  obtain ⟨X, ⟨w, hw⟩, hXsub, hXcard, hXvotes⟩ := (htraced i).2.built x hx
  obtain ⟨Y, -, hYsub, hYcard, hYvotes⟩ := (htraced j).2.built y hy
  simp only [genesisIds, C.sameGenesis] at hXsub hXcard hYsub hYcard
  have hpos : 0 < C.genesis.validators.length := by
    have := List.length_pos_of_mem (List.mem_toFinset.1 (hXsub hw))
    simpa using this
  refine ⟨X ∩ Y, Quorum.lt_three_mul_card_inter hpos ?_ hXsub hYsub hXcard hYcard,
    fun v hv => ?_⟩
  · simpa using List.toFinset_card_le (C.genesis.validators.map (·.validatorId))
  · obtain ⟨hvX, hvY⟩ := Finset.mem_inter.1 hv
    obtain ⟨a, ha, rfl, hahash, hanumber⟩ := hXvotes v hvX
    obtain ⟨b, hb, hbv, hbhash, hbnumber⟩ := hYvotes _ hvY
    refine ⟨List.mem_toFinset.1 (hXsub hvX), ⟨a, signed_of_vote htraced ha, hahash, hanumber⟩,
      b, ?_, hbhash, hbnumber.trans hnumber.symm⟩
    rw [← hbv]
    exact signed_of_vote htraced hb

end Cluster

/-! ## Two certificates

Nodes 4 and 2 propose blocks of height 1 in slots 0 and 1. Nodes 1, 3 and 4 vote for the first, and
node 3 certifies it. Then nodes 4 and 1 see the second block and node 2's vote for it, switch, and
node 1 certifies the second. -/

section TwoCertificates

/-- The sample nodes; node 2's clock is one slot ahead. -/
def racingEnv (i : ValidatorId) : Env :=
  { sampleEnv i with clock := fun _ => if i = 2 then 1000 else 0 }

def racingCluster : Cluster where
  env := racingEnv
  genesis := sampleGenesis
  sameGenesis _ := rfl
  me _ := rfl
  v2 _ := rfl

def startSlot (i : ValidatorId) : Option Slot := if i = 2 then some 0 else none

def nodeAfter (i : ValidatorId) (events : List Event) : Option Node :=
  runEvents (racingEnv i) 8 events (.fresh (racingEnv i) (startSlot i))

/-- The block a node proposes at its first tick. -/
def proposalOf (i : ValidatorId) : Block :=
  ((nodeAfter i [.slotTick]).bind (·.broadcastBlocks.head?)).getD firstBlock

def voteFor (proposer i : ValidatorId) : ProposalVote := signedProposalVote i (proposalOf proposer)

def certifyEvents : List Event :=
  [.received 4 (.blockProposal (proposalOf 4)), .received 4 (.proposalVote (voteFor 4 4)),
    .received 1 (.proposalVote (voteFor 4 1))]

def switchEvents : List Event :=
  [.received 2 (.proposalVote (voteFor 2 2)), .received 2 (.blockProposal (proposalOf 2))]

theorem proposer_sends :
    (nodeAfter 4 [.slotTick]).map (fun n => (n.broadcastBlocks.length, n.broadcastVotes)) =
      some (1, [voteFor 4 4]) ∧
    (nodeAfter 2 [.slotTick]).map (fun n => (n.broadcastBlocks.length, n.broadcastVotes)) =
      some (1, [voteFor 2 2]) := by
  decide +kernel

theorem proposalOf_mem {i : ValidatorId} {n : Node} {votes : List ProposalVote}
    (hn : nodeAfter i [.slotTick] = some n)
    (hsent : (n.broadcastBlocks.length, n.broadcastVotes) = (1, votes)) :
    proposalOf i ∈ n.broadcastBlocks := by
  obtain ⟨block, hblock⟩ := List.length_eq_one_iff.1 (Prod.mk.inj hsent).1
  simp [proposalOf, hn, hblock]

theorem follower_votes : (nodeAfter 1 [.received 4 (.blockProposal (proposalOf 4))]).map
    (·.broadcastVotes) = some [voteFor 4 1] := by
  decide +kernel

theorem follower_certifies : (nodeAfter 3 certifyEvents).map
    (fun n => n.builtQcs.map fun qc => (qc.blockNumber, qc.blockHash)) =
      some [(1, (proposalOf 4).blockHash)] := by
  decide +kernel

theorem proposer_switches : (nodeAfter 4 ([.slotTick] ++ switchEvents)).map (·.broadcastVotes) =
    some [voteFor 2 4, voteFor 4 4] := by
  decide +kernel

theorem switched_certifies : (nodeAfter 1 ([.received 4 (.blockProposal (proposalOf 4))] ++
      (switchEvents ++ [.received 4 (.proposalVote (voteFor 2 4))]))).map
    (fun n => n.builtQcs.map fun qc => (qc.blockNumber, qc.blockHash)) =
      some [(1, (proposalOf 2).blockHash)] := by
  decide +kernel

/-- The later run of a node that stands at an earlier one. -/
theorem runEvents_of_nodeAfter {i : ValidatorId} {xs ys : List Event} {n n' : Node}
    (hn : nodeAfter i xs = some n) (hn' : nodeAfter i (xs ++ ys) = some n') :
    runEvents (racingEnv i) 8 ys n = some n' := by
  rw [nodeAfter, runEvents_append] at hn'
  rw [nodeAfter] at hn
  rwa [hn] at hn'

/-- Two nodes build certificates for different blocks of height 1. -/
theorem racing_run : ∃ s, racingCluster.Reachable s ∧
    ∃ x ∈ (s 3).builtQcs, ∃ y ∈ (s 1).builtQcs,
      x.blockNumber = y.blockNumber ∧ x.blockHash ≠ y.blockHash := by
  obtain ⟨n4, hn4, hsent4⟩ := Option.map_eq_some_iff.1 proposer_sends.1
  obtain ⟨n2, hn2, hsent2⟩ := Option.map_eq_some_iff.1 proposer_sends.2
  obtain ⟨n1, hn1, hsent1⟩ := Option.map_eq_some_iff.1 follower_votes
  obtain ⟨n3, hn3, hqcs3⟩ := Option.map_eq_some_iff.1 follower_certifies
  obtain ⟨n4', hn4', hsent4'⟩ := Option.map_eq_some_iff.1 proposer_switches
  obtain ⟨n1', hn1', hqcs1⟩ := Option.map_eq_some_iff.1 switched_certifies
  have hblock4 := proposalOf_mem hn4 hsent4
  have hblock2 := proposalOf_mem hn2 hsent2
  have hvote4 : voteFor 4 4 ∈ n4.broadcastVotes := by simp [(Prod.mk.inj hsent4).2]
  have hvote2 : voteFor 2 2 ∈ n2.broadcastVotes := by simp [(Prod.mk.inj hsent2).2]
  have hfresh : racingCluster.Reachable fun i => .fresh (racingEnv i) (startSlot i) := .fresh startSlot
  have h4 := hfresh.runNode 4 ([.slotTick]) (by simp [Cluster.Delivers]) hn4
  have h2 := h4.runNode 2 ([.slotTick]) (by simp [Cluster.Delivers]) hn2
  have h1 := h2.runNode 1 ([.received 4 (.blockProposal (proposalOf 4))])
    (by simp [Cluster.Delivers, hblock4]) hn1
  have h3 := h1.runNode 3 certifyEvents
    (by simp [certifyEvents, Cluster.Delivers, hblock4, hvote4, hsent1]) hn3
  have h4' := h3.runNode 4 switchEvents
    (by simp [switchEvents, Cluster.Delivers, hblock2, hvote2])
    (runEvents_of_nodeAfter hn4 hn4')
  have h1' := h4'.runNode 1 (switchEvents ++ [.received 4 (.proposalVote (voteFor 2 4))])
    (by simp [switchEvents, Cluster.Delivers, hblock2, hvote2, hsent4'])
    (by simpa [racingCluster] using runEvents_of_nodeAfter hn1 hn1')
  obtain ⟨x, _, hx, hxqc, -⟩ := List.map_eq_cons_iff.1 hqcs3
  obtain ⟨y, _, hy, hyqc, -⟩ := List.map_eq_cons_iff.1 hqcs1
  simp only [Prod.mk.injEq] at hxqc hyqc
  refine ⟨_, h1', x, by simp [hx], y, by simp [hy], hxqc.1.trans hyqc.1.symm, ?_⟩
  rw [hxqc.2, hyqc.2]
  decide +kernel

/-- Certificates of one height need not be for one block. -/
theorem two_certificates_at_one_height :
    ¬∀ (C : Cluster) (s : ClusterState), C.Reachable s → ∀ (i j : ValidatorId),
      ∀ x ∈ (s i).builtQcs, ∀ y ∈ (s j).builtQcs, x.blockNumber = y.blockNumber →
        x.blockHash = y.blockHash := by
  intro hagree
  obtain ⟨s, hs, x, hx, y, hy, hnumber, hne⟩ := racing_run
  exact hne (hagree racingCluster s hs 3 1 x hx y hy hnumber)

/-- At least two of the four validators signed votes for both blocks. -/
theorem racing_double_voters : ∃ s, racingCluster.Reachable s ∧ ∃ both : Finset ValidatorId,
    4 < 3 * both.card ∧ ∀ v ∈ both, ∃ a ∈ (s v).signedVotes, ∃ b ∈ (s v).signedVotes,
      a.blockNumber = b.blockNumber ∧ a.blockHash ≠ b.blockHash := by
  obtain ⟨s, hs, x, hx, y, hy, hnumber, hne⟩ := racing_run
  obtain ⟨both, hcard, hboth⟩ :=
    Cluster.certificates_share_signers racingCluster s hs 3 1 x y hx hy hnumber
  refine ⟨s, hs, both, hcard, fun v hv => ?_⟩
  obtain ⟨-, ⟨a, ha, hahash, hanumber⟩, b, hb, hbhash, hbnumber⟩ := hboth v hv
  exact ⟨a, ha, b, hb, hanumber.trans hbnumber.symm, by rwa [hahash, hbhash]⟩

end TwoCertificates

end Entangrid
