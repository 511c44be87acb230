import Entangrid.Node.Proof.OneVote
import Entangrid.Node.Proof.Quorum
import Mathlib.Data.List.MinMax

/-!
# The votes of a snapshot

While a node has no certificate it compares a snapshot with its own chain by the votes for the tips.
The votes of the snapshot are counted as they stand in the message, so forged ones count too, and any
number of them can be made.

* `verifiable`: the votes that `validate_proposal_vote_for_block` would pass.
* `snapshot_adoption_unsteered_iff`: when forged votes cannot change the answer.
-/

namespace Entangrid

variable {E : Env} {n : Node} {chain : ChainSnapshot} {votes : List ProposalVote} {tip : Block}

/-- The vote is for a block of the list and valid for it. -/
def verifiable (E : Env) (blocks : List Block) (vote : ProposalVote) : Bool :=
  blocks.any fun block => block.blockHash == vote.blockHash &&
    (validateProposalVoteForBlock E vote block).toOption.isSome

/-- The snapshot with its verifiable votes only. -/
def verifiedSnapshot (E : Env) (chain : ChainSnapshot) : ChainSnapshot :=
  { chain with proposalVotes := chain.proposalVotes.filter (verifiable E chain.blocks) }

/-- How many validators the votes for a block name. -/
def tipVoteCount (votes : List ProposalVote) (tip : Block) : Nat :=
  ((votes.filter (·.blockHash == tip.blockHash)).map (·.validatorId)).dedup.length

/-- The quality of a branch without certificates that ends in `tip`, with `count` votes for it. -/
def tipQuality (tip : Block) (count : Nat) : BranchQuality :=
  preQcTipSupportQuality count tip.header.blockNumber tip.header.slot tip.blockHash

/-- The height of the local tip and the votes for it. -/
def localTipHeight (n : Node) : Nat := (n.blocks.getLast?.map (·.header.blockNumber)).getD 0

def localTipVotes (E : Env) (n : Node) : Nat :=
  (n.blocks.getLast?.map fun block => n.voteCountWithExtra E none block.blockHash).getD 0

/-- No number of votes lifts a tip of this height over the local one: the tip is lower, and it has
height 0 or the support of the local tip fills a `u64`. -/
def OutOfReach (E : Env) (n : Node) (height : Nat) : Prop :=
  height < localTipHeight n ∧
    (height = 0 ∨ satMul (localTipVotes E n) (localTipHeight n) = u64Max)

/-! ## Qualities -/

theorem snapshotBranchQuality_tip {blocks : List Block} (h : blocks.getLast? = some tip) :
    snapshotBranchQuality blocks votes = tipQuality tip (tipVoteCount votes tip) := by
  simp [snapshotBranchQuality, h, tipQuality, tipVoteCount]

theorem latestCertifiedBlock_of_highestLocalQc (h : n.highestLocalQc = none) :
    n.latestCertifiedBlock n.blocks = none := by
  unfold Node.latestCertifiedBlock
  refine List.find?_eq_none.2 fun block hb => ?_
  have hnone := List.findSome?_eq_none_iff.1 h block hb
  simp [Node.hasQc, Std.ExtTreeMap.contains_eq_isSome_getElem?, hnone]

/-- Without a certificate on the chain, only the tip counts. -/
theorem localQuality (h : n.highestLocalQc = none) :
    n.branchQualityWithExtraTipVote E n.blocks none =
      preQcTipSupportQuality (localTipVotes E n) (localTipHeight n)
        ((n.blocks.getLast?.map (·.header.slot)).getD 0)
        ((n.blocks.getLast?.map (·.blockHash)).getD empty_hash) := by
  have hheight : n.latestCertifiedHeight n.blocks = 0 := by
    rw [Node.latestCertifiedHeight, latestCertifiedBlock_of_highestLocalQc h]
    rfl
  rw [Node.branchQualityWithExtraTipVote, if_pos hheight]
  rfl

section
variable {count count' votes' height slot : Nat} {hash : HashBytes}

theorem compare_tipQuality :
    compare (tipQuality tip count) (preQcTipSupportQuality votes' height slot hash) = .gt ↔
      satMul votes' height < satMul count tip.header.blockNumber ∨
      satMul count tip.header.blockNumber = satMul votes' height ∧
        (height < tip.header.blockNumber ∨ tip.header.blockNumber = height ∧
          (votes' < count ∨ count = votes' ∧
            (compare tip.header.slot slot).then (compare tip.blockHash hash) = .gt)) := by
  have hthen : compare (tipQuality tip count) (preQcTipSupportQuality votes' height slot hash) =
      (compare 0 0).then ((compare (satMul count tip.header.blockNumber) (satMul votes' height)).then
        ((compare tip.header.blockNumber height).then ((compare count votes').then
          ((compare tip.header.slot slot).then (compare tip.blockHash hash))))) := rfl
  rw [hthen, Nat.compare_eq_eq.2 rfl, Ordering.eq_then]
  simp only [Ordering.then_eq_gt, Nat.compare_eq_gt, Nat.compare_eq_eq]

theorem satMul_mono (h : count ≤ count') : satMul count height ≤ satMul count' height := by
  have := Nat.mul_le_mul_right height h
  unfold satMul
  omega

/-- More votes do not make a tip worse. -/
theorem compare_tipQuality_mono (h : count ≤ count')
    (hgt : compare (tipQuality tip count) (preQcTipSupportQuality votes' height slot hash) = .gt) :
    compare (tipQuality tip count') (preQcTipSupportQuality votes' height slot hash) = .gt := by
  have hmono : satMul count tip.header.blockNumber ≤ satMul count' tip.header.blockNumber :=
    satMul_mono h
  rw [compare_tipQuality] at hgt ⊢
  rcases Nat.lt_or_eq_of_le h with hlt | rfl
  · omega
  · exact hgt

/-- Enough votes lift every tip that is not out of reach. -/
theorem exists_votes_iff : (∃ count, compare (tipQuality tip count)
      (preQcTipSupportQuality votes' height slot hash) = .gt) ↔
    ¬(tip.header.blockNumber < height ∧
      (tip.header.blockNumber = 0 ∨ satMul votes' height = u64Max)) := by
  simp only [compare_tipQuality]
  have hbound (a b : Nat) : satMul a b ≤ u64Max := Nat.min_le_right _ _
  constructor
  · rintro ⟨count, hgt⟩ ⟨hlt, hzero | hfull⟩
    · have hnone : satMul count tip.header.blockNumber = 0 := by simp [hzero, satMul]
      omega
    · have := hbound count tip.header.blockNumber
      omega
  · intro hreach
    -- one vote more than the local tip has, and enough to fill a `u64`
    refine ⟨votes' + 1 + u64Max, ?_⟩
    have hlocal := hbound votes' height
    by_cases hzero : tip.header.blockNumber = 0
    · have hheight : height = 0 := by omega
      have hnone : satMul (votes' + 1 + u64Max) tip.header.blockNumber = 0 := by simp [hzero, satMul]
      have hnone' : satMul votes' height = 0 := by simp [hheight, satMul]
      omega
    · have hfull : satMul (votes' + 1 + u64Max) tip.header.blockNumber = u64Max := by
        have hle : votes' + 1 + u64Max ≤ (votes' + 1 + u64Max) * tip.header.blockNumber :=
          Nat.le_mul_of_pos_right _ (Nat.pos_of_ne_zero hzero)
        unfold satMul
        omega
      omega

end

/-! ## Forged votes -/

theorem tipVoteCount_mono {votes' : List ProposalVote} (h : votes ⊆ votes') :
    tipVoteCount votes tip ≤ tipVoteCount votes' tip := by
  refine (List.Nodup.subperm (List.nodup_dedup _) fun v hv => ?_).length_le
  obtain ⟨vote, hvote, rfl⟩ := List.mem_map.1 (List.mem_dedup.1 hv)
  obtain ⟨hmem, htip⟩ := List.mem_filter.1 hvote
  exact List.mem_dedup.2 (List.mem_map.2 ⟨vote, List.mem_filter.2 ⟨h hmem, htip⟩, rfl⟩)

/-- A vote for `tip` in the name of someone who is no validator. -/
def strangerVote (E : Env) (tip : Block) (i : Nat) : ProposalVote where
  validatorId := (E.genesis.validators.map (·.validatorId)).foldr max 0 + 1 + i
  blockHash := tip.blockHash
  blockNumber := tip.header.blockNumber
  epoch := tip.header.epoch
  slot := tip.header.slot
  signature := {}

theorem strangerVote_not_validator (i : Nat) :
    (strangerVote E tip i).validatorId ∉ genesisIds E := by
  intro hmem
  have hle := List.le_max_of_le' 0 (List.mem_toFinset.1 hmem) le_rfl
  exact Nat.not_le_of_lt (Nat.lt_add_right i (Nat.lt_succ_self _)) hle

theorem strangerVote_forged (blocks : List Block) (i : Nat) :
    verifiable E blocks (strangerVote E tip i) = false := by
  refine List.any_eq_false.2 fun block _ => ?_
  simp only [Bool.and_eq_true, not_and]
  intro _ hok
  obtain ⟨u, hvalid⟩ := Option.isSome_iff_exists.1 hok
  exact strangerVote_not_validator i (validateProposalVoteForBlock_ok (toOption_eq_some.1 hvalid)).1

/-- Strangers give a tip as many votes as one likes. -/
theorem le_tipVoteCount_strangers (count : Nat) :
    count ≤ tipVoteCount (votes ++ (List.range count).map (strangerVote E tip)) tip := by
  have hids : ((List.range count).map fun i => (strangerVote E tip i).validatorId).Nodup :=
    List.Nodup.map (fun i j h => by simpa [strangerVote] using h) List.nodup_range
  have hsub : (List.range count).map (fun i => (strangerVote E tip i).validatorId) ⊆
      ((votes ++ (List.range count).map (strangerVote E tip)).filter
        (·.blockHash == tip.blockHash) |>.map (·.validatorId)).dedup := by
    intro v hv
    obtain ⟨i, hi, rfl⟩ := List.mem_map.1 hv
    refine List.mem_dedup.2 (List.mem_map.2 ⟨strangerVote E tip i, List.mem_filter.2 ⟨?_, ?_⟩, rfl⟩)
    · exact List.mem_append_right _ (List.mem_map_of_mem hi)
    · simp [strangerVote]
  have hle := (hids.subperm hsub).length_le
  rwa [List.length_map, List.length_range] at hle

/-- Strangers' votes do not count among the verifiable ones. -/
theorem filter_verifiable_strangers (blocks : List Block) (count : Nat) :
    (votes ++ (List.range count).map (strangerVote E tip)).filter (verifiable E blocks) =
      votes.filter (verifiable E blocks) := by
  have hnone : ((List.range count).map (strangerVote E tip)).filter (verifiable E blocks) = [] := by
    refine List.filter_eq_nil_iff.2 fun vote hvote => ?_
    obtain ⟨i, -, rfl⟩ := List.mem_map.1 hvote
    simp [strangerVote_forged]
  rw [List.filter_append, hnone, List.append_nil]

/-! ## The decision -/

section
variable (hv2 : E.v2 = true) (hqc : n.highestLocalQc = none)
include hv2 hqc

/-- Without a local certificate a snapshot is taken for the votes it carries. -/
theorem shouldAdoptChainSnapshot_tip (localSnapshot : StateSnapshot)
    (htip : chain.blocks.getLast? = some tip) :
    shouldAdoptChainSnapshot E n localSnapshot chain = true ↔
      compare (tipQuality tip (tipVoteCount chain.proposalVotes tip))
        (n.branchQualityWithExtraTipVote E n.blocks none) = .gt := by
  rw [shouldAdoptChainSnapshot, snapshotBranchQuality_tip htip]
  simp [hv2, hqc]

end

/-- **Forged votes do not steer the adoption of a snapshot** if and only if it has no block, its
verifiable votes are enough by themselves, or no votes are enough. -/
theorem snapshot_adoption_unsteered_iff (E : Env) (n : Node) (localSnapshot : StateSnapshot)
    (chain : ChainSnapshot) (hv2 : E.v2 = true) (hqc : n.highestLocalQc = none) :
    (∀ votes, votes.filter (verifiable E chain.blocks) =
        chain.proposalVotes.filter (verifiable E chain.blocks) →
      shouldAdoptChainSnapshot E n localSnapshot { chain with proposalVotes := votes } =
        shouldAdoptChainSnapshot E n localSnapshot chain) ↔
    chain.blocks = [] ∨
      shouldAdoptChainSnapshot E n localSnapshot (verifiedSnapshot E chain) = true ∨
      ∃ tip, chain.blocks.getLast? = some tip ∧ OutOfReach E n tip.header.blockNumber := by
  cases htip : chain.blocks.getLast? with
  | none =>
    have hnil := List.getLast?_eq_none_iff.1 htip
    refine iff_of_true (fun votes _ => ?_) (.inl hnil)
    simp [shouldAdoptChainSnapshot, hv2, hqc, snapshotBranchQuality, hnil]
  | some tip =>
    have hlocal := localQuality (E := E) hqc
    have hadopt (votes : List ProposalVote) :
        shouldAdoptChainSnapshot E n localSnapshot { chain with proposalVotes := votes } = true ↔
          compare (tipQuality tip (tipVoteCount votes tip))
            (n.branchQualityWithExtraTipVote E n.blocks none) = .gt :=
      shouldAdoptChainSnapshot_tip hv2 hqc localSnapshot htip
    have hverified := hadopt (chain.proposalVotes.filter (verifiable E chain.blocks))
    have hreach : (∃ count, compare (tipQuality tip count)
        (n.branchQualityWithExtraTipVote E n.blocks none) = .gt) ↔
          ¬OutOfReach E n tip.header.blockNumber := by
      rw [hlocal]
      exact exists_votes_iff
    constructor
    · intro hsame
      by_contra hnot
      simp only [not_or, Option.some.injEq, exists_eq_left'] at hnot
      obtain ⟨count, hcount⟩ := hreach.2 hnot.2.2
      -- strangers make up the votes that are missing
      have hforged := hsame (chain.proposalVotes.filter (verifiable E chain.blocks) ++
        (List.range count).map (strangerVote E tip)) (by
          rw [filter_verifiable_strangers]
          simp)
      have hclean := hsame (chain.proposalVotes.filter (verifiable E chain.blocks)) (by simp)
      refine hnot.2.1 ?_
      rw [verifiedSnapshot, hclean, ← hforged, hadopt]
      rw [hlocal] at hcount ⊢
      exact compare_tipQuality_mono (le_tipVoteCount_strangers count) hcount
    · intro hcases votes hvotes
      rcases hcases with hnil | htrue | ⟨tip', htip', hout⟩
      · rw [hnil] at htip
        cases htip
      · have hmono (votes : List ProposalVote) (h : votes.filter (verifiable E chain.blocks) =
            chain.proposalVotes.filter (verifiable E chain.blocks)) :
            shouldAdoptChainSnapshot E n localSnapshot { chain with proposalVotes := votes } = true := by
          have hgt := hverified.1 htrue
          rw [hadopt]
          rw [hlocal] at hgt ⊢
          refine compare_tipQuality_mono (tipVoteCount_mono ?_) hgt
          exact h ▸ List.filter_subset_self votes
        rw [hmono votes hvotes, hmono chain.proposalVotes rfl]
      · obtain rfl := Option.some.inj htip'
        have hfalse (votes : List ProposalVote) :
            shouldAdoptChainSnapshot E n localSnapshot { chain with proposalVotes := votes } = false := by
          by_contra htrue
          have hgt := (hadopt votes).1 (by simpa using htrue)
          exact hreach.1 ⟨_, hgt⟩ hout
        rw [hfalse votes, hfalse chain.proposalVotes]

/-! ## Forged votes at work

Node 1 has the rival block and its own vote for it. -/

/-- A snapshot of the first block. -/
def firstSnapshot (votes : List ProposalVote) : ChainSnapshot where
  snapshot := (LedgerState.fromGenesis sampleGenesis).snapshot
  blocks := [firstBlock]
  receipts := []
  proposalVotes := votes

def forgedVotes : List ProposalVote := (List.range 2).map (strangerVote (sampleEnv 1) firstBlock)

theorem rival_run : (runEvents (sampleEnv 1) 8 [.received 2 (.blockProposal rivalBlock)]
    (.fresh (sampleEnv 1) (some 1))).map (fun n => (n.highestLocalQc.isSome,
      shouldAdoptChainSnapshot (sampleEnv 1) n n.ledger.snapshot (firstSnapshot []),
      shouldAdoptChainSnapshot (sampleEnv 1) n n.ledger.snapshot (firstSnapshot forgedVotes),
      shouldAdoptChainSnapshot (sampleEnv 1) n n.ledger.snapshot
        (verifiedSnapshot (sampleEnv 1) (firstSnapshot
          [signedProposalVote 2 firstBlock, signedProposalVote 3 firstBlock])))) =
    some (false, false, true, true) := by
  decide +kernel

/-- With the votes of two validators the snapshot of the first block is adopted, whatever forged votes
come with it. -/
theorem two_votes_are_enough : ∃ n, Reachable (sampleEnv 1) AnyEvent n ∧ ∀ votes,
    votes.filter (verifiable (sampleEnv 1) [firstBlock]) =
      [signedProposalVote 2 firstBlock, signedProposalVote 3 firstBlock].filter
        (verifiable (sampleEnv 1) [firstBlock]) →
    shouldAdoptChainSnapshot (sampleEnv 1) n n.ledger.snapshot (firstSnapshot votes) =
      shouldAdoptChainSnapshot (sampleEnv 1) n n.ledger.snapshot (firstSnapshot
        [signedProposalVote 2 firstBlock, signedProposalVote 3 firstBlock]) := by
  obtain ⟨n, hn, hvalues⟩ := Reachable.of_map (P := AnyEvent) 8 _ _ _ _ (fun _ _ _ => trivial) rival_run
  simp only [Prod.mk.injEq] at hvalues
  refine ⟨n, hn, (snapshot_adoption_unsteered_iff (sampleEnv 1) n n.ledger.snapshot (firstSnapshot
    [signedProposalVote 2 firstBlock, signedProposalVote 3 firstBlock]) rfl ?_).2
    (.inr (.inl hvalues.2.2.2))⟩
  simpa using hvalues.1

/-- Two votes that no validator signed decide that a snapshot is adopted. -/
theorem forged_votes_steer_adoption : ∃ n, Reachable (sampleEnv 1) AnyEvent n ∧
    (sampleEnv 1).v2 = true ∧ n.highestLocalQc = none ∧
    (∀ vote ∈ forgedVotes, ∀ block,
      validateProposalVoteForBlock (sampleEnv 1) vote block ≠ .ok ()) ∧
    shouldAdoptChainSnapshot (sampleEnv 1) n n.ledger.snapshot (firstSnapshot []) ≠
      shouldAdoptChainSnapshot (sampleEnv 1) n n.ledger.snapshot (firstSnapshot forgedVotes) := by
  obtain ⟨n, hn, hvalues⟩ := Reachable.of_map (P := AnyEvent) 8 _ _ _ _ (fun _ _ _ => trivial) rival_run
  simp only [Prod.mk.injEq] at hvalues
  refine ⟨n, hn, rfl, by simpa using hvalues.1, fun vote hvote block hvalid => ?_, ?_⟩
  · obtain ⟨i, -, rfl⟩ := List.mem_map.1 hvote
    exact strangerVote_not_validator i (validateProposalVoteForBlock_ok hvalid).1
  · rw [hvalues.2.1, hvalues.2.2.1]
    decide

end Entangrid
