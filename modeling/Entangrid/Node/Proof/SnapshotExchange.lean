import Entangrid.Lib.MapTotal
import Entangrid.Node.Proof.BlockStore
import Entangrid.Node.Proof.ForkChoice
import Entangrid.Node.Proof.Restart
import Entangrid.Node.Proof.SnapshotVotes

/-!
# Snapshots between uncertified nodes

A node without a certificate ranks its own branch by the votes it holds for the tip; a peer that gets
its snapshot ranks the branch by the votes the message carries. A vote lies under its own block and
validator, so the message carries as many voters of the tip as the node counts, and both come to the
same quality if the whole chain is exported. The export stops at the height of the ledger, which is
the number that the last block gives itself.

* `tipVoteCount_votesForBlocks`: the voters of a block in an export.
* `exported_quality_iff`: the quality of the export is that of the branch iff the whole chain is
  exported.
* `snapshot_exchange_consistent_iff`: when two such nodes agree on who follows whom.
-/

namespace Entangrid

variable {E E' : Env} {n a b : Node} {chain : ChainSnapshot} {tip : Block}

/-- The quality of a node's own branch. -/
def ownQuality (E : Env) (n : Node) : BranchQuality := n.branchQualityWithExtraTipVote E n.blocks none

/-- The export of `b` has the quality `b` gives its branch, and `a` adopts it exactly if that is
greater than the quality of its own branch. -/
structure Ranks (E E' : Env) (a b : Node) : Prop where
  quality : ∃ chain, b.buildChainSnapshot E' = .ok chain ∧
    snapshotBranchQuality chain.blocks chain.proposalVotes = ownQuality E' b
  adopts : ∀ chain, b.buildChainSnapshot E' = .ok chain →
    (shouldAdoptChainSnapshot E a a.ledger.snapshot chain = true ↔
      compare (ownQuality E' b) (ownQuality E a) = .gt)

/-- Both rank each other's export as it is ranked where it comes from, and they do not both adopt. -/
structure ConsistentExchange (E E' : Env) (a b : Node) : Prop where
  there : Ranks E E' a b
  back : Ranks E' E b a
  exclusive : ∀ chain chain', b.buildChainSnapshot E' = .ok chain → a.buildChainSnapshot E = .ok chain' →
    ¬(shouldAdoptChainSnapshot E a a.ledger.snapshot chain = true ∧
      shouldAdoptChainSnapshot E' b b.ledger.snapshot chain' = true)

/-! ## The votes of an export -/

theorem Node.mem_votesForBlocks {blocks : List Block} {vote : ProposalVote} :
    vote ∈ n.votesForBlocks blocks ↔
      ∃ h v, hasBlock blocks h = true ∧ VoteMap.lookup n.proposalVotes h v = some vote := by
  simp only [Node.votesForBlocks, List.mem_flatMap, List.mem_filter, Prod.exists,
    Std.ExtTreeMap.mem_toList_iff_getElem?_eq_some, Std.ExtTreeMap.mem_values,
    VoteMap.lookup_eq_some_iff]
  constructor
  · rintro ⟨h, byValidator, ⟨hfound, hblock⟩, v, hvote⟩
    exact ⟨h, v, hblock, byValidator, hfound, hvote⟩
  · rintro ⟨h, v, hblock, byValidator, hfound, hvote⟩
    exact ⟨h, byValidator, ⟨hfound, hblock⟩, v, hvote⟩

/-- The voters of a block in an export are the ones the node counts. -/
theorem tipVoteCount_votesForBlocks (hvotes : VoteInv E n) {blocks : List Block} (htip : tip ∈ blocks) :
    tipVoteCount (n.votesForBlocks blocks) tip = n.voteCount tip.blockHash := by
  have hblock : hasBlock blocks tip.blockHash = true := hasBlock_iff.2 ⟨tip, htip, rfl⟩
  -- both are the lengths of lists without repetitions, of the same validators
  have hmem (v : ValidatorId) :
      v ∈ (((n.votesForBlocks blocks).filter (·.blockHash == tip.blockHash)).map
        (·.validatorId)).dedup ↔ v ∈ (n.proposalVotes.getD tip.blockHash ∅).keys := by
    rw [List.mem_dedup, List.mem_map, Std.ExtTreeMap.mem_keys, Std.ExtTreeMap.mem_iff_isSome_getElem?,
      Option.isSome_iff_exists]
    constructor
    · rintro ⟨vote, hvote, rfl⟩
      obtain ⟨hvote, hhash⟩ := List.mem_filter.1 hvote
      obtain ⟨h, v, -, hfound⟩ := Node.mem_votesForBlocks.1 hvote
      obtain ⟨rfl, rfl⟩ := hvotes.keyed h v vote (.inl hfound)
      rw [beq_iff_eq] at hhash
      exact ⟨vote, hhash ▸ hfound⟩
    · rintro ⟨vote, hfound⟩
      obtain ⟨hhash, rfl⟩ := hvotes.keyed tip.blockHash v vote (.inl hfound)
      exact ⟨vote, List.mem_filter.2
        ⟨Node.mem_votesForBlocks.2 ⟨_, _, hblock, hfound⟩, beq_iff_eq.2 hhash⟩, rfl⟩
  have hperm := (List.perm_ext_iff_of_nodup (List.nodup_dedup _) Std.ExtTreeMap.nodup_keys).2 hmem
  rw [tipVoteCount, hperm.length_eq, Std.ExtTreeMap.length_keys, Node.voteCount,
    Std.ExtTreeMap.getD_eq_getD_getElem?]
  cases n.proposalVotes[tip.blockHash]? with
  | none => rfl
  | some byValidator => rfl

/-! ## The blocks of an export -/

section Export
variable (hqc : n.highestLocalQc = none)
include hqc

/-- Without a certificate the export stops at the height of the ledger. -/
theorem syncExportPrefixLen_eq : n.syncExportPrefixLen = min n.ledger.blockHeight n.blocks.length := by
  unfold Node.syncExportPrefixLen Node.localSyncView
  simp only [hqc]
  split_ifs <;> rfl

/-- The quality of an export of the whole chain. -/
theorem snapshotBranchQuality_export (hvotes : VoteInv E n) :
    snapshotBranchQuality n.blocks (n.votesForBlocks n.blocks) = ownQuality E n := by
  rw [ownQuality, localQuality hqc]
  cases htip : n.blocks.getLast? with
  | none => simp [snapshotBranchQuality, htip, localTipVotes, localTipHeight]
  | some tip =>
    have hmem := List.mem_of_getLast? htip
    rw [snapshotBranchQuality_tip htip, tipVoteCount_votesForBlocks hvotes hmem]
    simp [tipQuality, htip, localTipVotes, localTipHeight, Node.voteCountWithExtra]

/-- The whole chain is exported with the node's ledger. -/
theorem buildChainSnapshot_whole (hheight : n.blocks.length ≤ n.ledger.blockHeight) :
    n.buildChainSnapshot E = .ok
      { snapshot := n.ledger.snapshot, blocks := n.blocks, receipts := n.receipts
        proposalVotes := n.votesForBlocks n.blocks } := by
  have hexported : n.syncExportPrefixLen = n.blocks.length := by
    rw [syncExportPrefixLen_eq hqc, Nat.min_eq_right hheight]
  have hsnapshot : n.syncExportSnapshot E = .ok n.ledger.snapshot := if_pos hexported
  rw [Node.buildChainSnapshot, hsnapshot, hexported, List.take_length]
  rfl

/-- **The export is ranked as the branch iff it is the whole chain**, where no hash comes twice. -/
theorem exported_quality_iff (hvotes : VoteInv E n) (hdistinct : (n.blocks.map (·.blockHash)).Nodup)
    (hnonempty : ∀ block ∈ n.blocks, block.blockHash ≠ empty_hash) :
    (∃ chain, n.buildChainSnapshot E = .ok chain ∧
        snapshotBranchQuality chain.blocks chain.proposalVotes = ownQuality E n) ↔
      n.blocks.length ≤ n.ledger.blockHeight := by
  constructor
  · rintro ⟨chain, hbuilt, hquality⟩
    obtain ⟨snapshot, -, hbuilt⟩ := except_bind_ok.1 hbuilt
    obtain rfl := Except.ok.inj hbuilt
    -- the qualities end in the tips of the exported part and of the chain
    have htip : tipFrom empty_hash (n.blocks.take n.syncExportPrefixLen) =
        tipFrom empty_hash n.blocks := by
      have hlast := congrArg (fun quality => quality.2.2.2.2.2) hquality
      exact (HashChain.getLast?_map_getD _).symm.trans (hlast.trans Node.tipHash_branchQuality)
    have hlength := HashChain.length_le_of_tipFrom_take hdistinct hnonempty htip
    rw [syncExportPrefixLen_eq hqc] at hlength
    exact hlength.trans (Nat.min_le_left _ _)
  · intro hheight
    exact ⟨_, buildChainSnapshot_whole hqc hheight, snapshotBranchQuality_export hqc hvotes⟩

end Export

/-! ## The exchange -/

/-- A node on the whole chain of its ledger is ranked by its peers as it ranks itself. -/
theorem ranks_of_height (hv2 : E.v2 = true) (hqc : a.highestLocalQc = none)
    (hqc' : b.highestLocalQc = none) (hvotes : VoteInv E' b)
    (hheight : b.blocks.length ≤ b.ledger.blockHeight) : Ranks E E' a b := by
  have hbuilt := buildChainSnapshot_whole (E := E') hqc' hheight
  have hquality := snapshotBranchQuality_export hqc' hvotes
  refine ⟨⟨_, hbuilt, hquality⟩, fun chain hchain => ?_⟩
  rw [hbuilt] at hchain
  obtain rfl := Except.ok.inj hchain
  rw [shouldAdoptChainSnapshot, hquality]
  simp [hv2, hqc, ownQuality]

/-- Two nodes that rank each other's export alike do not both adopt. -/
theorem not_both_adopt (there : Ranks E E' a b) (back : Ranks E' E b a) (chain chain' : ChainSnapshot)
    (hchain : b.buildChainSnapshot E' = .ok chain) (hchain' : a.buildChainSnapshot E = .ok chain') :
    ¬(shouldAdoptChainSnapshot E a a.ledger.snapshot chain = true ∧
      shouldAdoptChainSnapshot E' b b.ledger.snapshot chain' = true) := by
  rintro ⟨hadopt, hadopt'⟩
  have hgt := (there.adopts chain hchain).1 hadopt
  have hlt := (back.adopts chain' hchain').1 hadopt'
  rw [Std.OrientedOrd.eq_swap, hgt] at hlt
  cases hlt

/-- A consensus_v2 node that came about from empty storage and the blocks of `S`, without a certificate
on its chain. -/
structure Uncertified (E : Env) (S : Set Block) (n : Node) : Prop where
  reachable : Reachable E (BlocksFrom S) n
  own : ∀ block ∈ n.builtBlocks, block ∈ S
  v2 : E.v2 = true
  noQc : n.highestLocalQc = none

namespace Uncertified

variable {S : Set Block}

theorem voteInv (h : Uncertified E S n) : VoteInv E n :=
  (h.reachable.mono fun _ _ _ => trivial).voteInv

theorem exported_quality_iff (hS : CollisionFree E.hashing S) (h : Uncertified E S n) :
    (∃ chain, n.buildChainSnapshot E = .ok chain ∧
        snapshotBranchQuality chain.blocks chain.proposalVotes = ownQuality E n) ↔
      n.blocks.length ≤ n.ledger.blockHeight := by
  have hstore := h.reachable.storeInv hS h.own
  have hknown {block : Block} (hb : block ∈ n.blocks) : block ∈ n.knownBlocks :=
    Node.mem_knownBlocks.2 (.inl hb)
  refine Entangrid.exported_quality_iff h.noQc h.voteInv ?_ fun block hb => ?_
  · have hdistinct := hstore.distinct
    rw [Node.knownBlocks, List.append_assoc, List.map_append] at hdistinct
    exact (List.nodup_append.1 hdistinct).1
  · rw [← hstore.hashed block (hknown hb)]
    exact hS.nonempty block (h.reachable.known_mem h.own block (hknown hb))

end Uncertified

/-- **Snapshots without certificates are exchanged consistently** exactly between nodes whose ledger is
as high as their chain is long. -/
theorem snapshot_exchange_consistent_iff (E E' : Env) (S : Set Block)
    (hS : CollisionFree E.hashing S) (hS' : CollisionFree E'.hashing S) (a b : Node)
    (ha : Uncertified E S a) (hb : Uncertified E' S b) :
    ConsistentExchange E E' a b ↔
      a.blocks.length ≤ a.ledger.blockHeight ∧ b.blocks.length ≤ b.ledger.blockHeight := by
  constructor
  · intro h
    exact ⟨(ha.exported_quality_iff hS).1 h.back.quality, (hb.exported_quality_iff hS').1 h.there.quality⟩
  · rintro ⟨hheight, hheight'⟩
    have there : Ranks E E' a b := ranks_of_height ha.v2 ha.noQc hb.noQc hb.voteInv hheight'
    have back : Ranks E' E b a := ranks_of_height hb.v2 hb.noQc ha.noQc ha.voteInv hheight
    exact ⟨there, back, not_both_adopt there back⟩

/-! ## Runs -/

/-- A node that heard one proposal before any certificate. -/
theorem uncertified_after_proposal (block : Block) (height : Nat) {S : Set Block} (hblock : block ∈ S)
    (hrun : (runEvents (sampleEnv 1) 8 [.received 4 (.blockProposal block)]
        (.fresh (sampleEnv 1) (some 1))).map (fun n => (n.builtBlocks.length, n.highestLocalQc.isNone,
          n.blocks.length, n.ledger.blockHeight)) = some (0, true, 1, height)) :
    ∃ n, Uncertified (sampleEnv 1) S n ∧ n.blocks.length = 1 ∧ n.ledger.blockHeight = height := by
  obtain ⟨n, hn, hvalues⟩ := Reachable.of_map (P := BlocksFrom S) 8 _ _ _ _ (by
    intro event hevent n b hb
    obtain rfl := List.mem_singleton.1 hevent
    obtain rfl := List.mem_singleton.1 hb
    exact hblock) hrun
  simp only [Prod.mk.injEq, List.length_eq_zero_iff, Option.isNone_iff_eq_none] at hvalues
  obtain ⟨hbuilt, hqc, hlength, hheight⟩ := hvalues
  refine ⟨n, ⟨hn, ?_, rfl, hqc⟩, hlength, hheight⟩
  intro b hb
  rw [hbuilt] at hb
  cases hb

theorem uncertified_fresh {S : Set Block} (v : ValidatorId) :
    Uncertified (sampleEnv v) S (.fresh (sampleEnv v) (some 1)) where
  reachable := .fresh _
  own b hb := by cases hb
  v2 := rfl
  noQc := rfl

/-- Node 1 took the first block, and node 2 has nothing. -/
theorem first_block_exchanged_consistently : ∃ n, n.blocks.length = 1 ∧
    ConsistentExchange (sampleEnv 2) (sampleEnv 1) (.fresh (sampleEnv 2) (some 1)) n := by
  obtain ⟨n, hn, hlength, hheight⟩ := uncertified_after_proposal firstBlock 1
    (S := {b | b = firstBlock ∨ b = secondBlock}) (.inl rfl) (by decide +kernel)
  refine ⟨n, hlength, (snapshot_exchange_consistent_iff (sampleEnv 2) (sampleEnv 1)
    {b | b = firstBlock ∨ b = secondBlock} collisionFree_first_second collisionFree_first_second _ n
    (uncertified_fresh 2) hn).2 ⟨Nat.le_refl 0, ?_⟩⟩
  rw [hlength, hheight]

/-- Node 1 took a first block that says it is number 0, and exports nothing of it: node 2, which has
nothing, does not adopt what node 1 ranks above the empty chain. -/
theorem misnumbered_exchange_is_inconsistent : ∃ n,
    Uncertified (sampleEnv 1) {emptyBlock 0 empty_hash 0} n ∧
      ¬ConsistentExchange (sampleEnv 2) (sampleEnv 1) (.fresh (sampleEnv 2) (some 1)) n := by
  have hS : CollisionFree rollingHashing {emptyBlock 0 empty_hash 0} := by
    refine ⟨?_, ?_⟩
    · rintro b rfl c rfl -
      exact ⟨rfl, rfl, rfl⟩
    · rintro b rfl
      decide +kernel
  obtain ⟨n, hn, hlength, hheight⟩ := uncertified_after_proposal (emptyBlock 0 empty_hash 0) 0
    (Set.mem_singleton _) (by decide +kernel)
  refine ⟨n, hn, fun h => ?_⟩
  have hle := (hn.exported_quality_iff hS).1 h.there.quality
  rw [hlength, hheight] at hle
  exact absurd hle (by decide)

end Entangrid
