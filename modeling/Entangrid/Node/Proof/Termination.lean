import Mathlib.Data.Finset.Card
import Entangrid.Node.Import
import Entangrid.Node.Proof.Moves
import Entangrid.Node.Proof.Sends

/-!
# Vote processing terminates

Inside the cycle of `Node.Votes` the node votes only for the tip of a chain it has just adopted, and
the tip has no certificate (`OnUncertifiedTip`). From there the imported vote either completes a
certificate, and then one known block fewer is without one, or it moves nothing: the chain it could
move to is the chain the node is on.

* `vote_processing_terminates`: the import of a vote stops, and more fuel than there are known blocks
  is enough.
-/

namespace Entangrid

open Proc (Matches Stops Total)

variable {E : Env} {A : Source} {n n' : Node}

/-! ## Storing, building and adopting -/

section Parts

open NodeM

theorem NodeM.emit_total (effect : Effect) : Total (NodeM.emit effect) := .modify _

theorem NodeM.store_total (w : StorageWrite) : Total (NodeM.store w) := .modify _

theorem NodeM.broadcast_total (message : ProtocolMessage) : Total (NodeM.broadcast message) :=
  .modify _

theorem storeVoteUnlessHeld_total (existing : Option ProposalVote) (vote : ProposalVote)
    (add : Node → Node) : Total (storeVoteUnlessHeld E existing vote add) := by
  unfold storeVoteUnlessHeld
  cases existing with
  | none => exact (Total.modify _).thenPure
  | some held => exact .ite (.pure _) (.throw _)

theorem resolveConflictingProposalVote_total (vote : ProposalVote) :
    Total (resolveConflictingProposalVote E vote) :=
  .read fun _ => .bind (.ofExcept _) fun _ => .forEach fun _ => .modify _

theorem storeProposalVote_total (vote : ProposalVote) : Total (storeProposalVote E vote) :=
  (resolveConflictingProposalVote_total vote).bind fun _ => .read fun _ =>
    storeVoteUnlessHeld_total _ _ _

theorem storeBufferedProposalVote_total (vote : ProposalVote) :
    Total (storeBufferedProposalVote E vote) :=
  (resolveConflictingProposalVote_total vote).bind fun _ => .read fun _ =>
    storeVoteUnlessHeld_total _ _ _

theorem persistQuorumCertificates_total : Total persistQuorumCertificates :=
  .read fun _ => store_total _

theorem importCommitmentReceipts_total (receipts : List RelayReceipt) :
    Total (importCommitmentReceipts E receipts) := fun n => by
  refine ⟨rfl, ?_⟩
  rw [run_importCommitmentReceipts]
  rfl

theorem adoptCanonicalChain_total (chain : List Block) : Total (adoptCanonicalChain E chain) :=
  .bind (.ofExcept _) fun _ => .bind (.modify _) fun _ =>
    (importCommitmentReceipts_total _).bind fun _ => .bind (.modify _) fun _ => .read fun _ =>
      (store_total _).bind fun _ => (store_total _).bind fun _ => (store_total _).bind fun _ =>
        persistQuorumCertificates_total

theorem maybeAdoptCertifiedBranch_total (tipHash : HashBytes) :
    Total (maybeAdoptCertifiedBranch E tipHash) :=
  .read fun n => by
    split
    · exact .pure _
    · exact (adoptCanonicalChain_total _).thenPure

theorem maybeBuildQc_total (blockHash : HashBytes) : Total (maybeBuildQc E blockHash) :=
  .read fun n => by
    split
    · exact .pure _
    · split
      · exact .pure _
      · exact .ite (.throw _) <| .bind (.modify _) fun _ => (emit_total _).bind fun _ =>
          (store_total _).bind fun _ => (Total.modify _).thenPure

end Parts

/-! ## Blocks without a certificate -/

namespace Node

/-- The hashes of the known blocks that have no certificate. -/
def uncertifiedHashes (n : Node) : Finset HashBytes :=
  (n.knownBlocks.map (·.blockHash)).toFinset.filter fun h => n.hasQc h = false

theorem mem_uncertifiedHashes {h : HashBytes} :
    h ∈ n.uncertifiedHashes ↔ (∃ b ∈ n.knownBlocks, b.blockHash = h) ∧ n.hasQc h = false := by
  simp [uncertifiedHashes]

theorem card_uncertifiedHashes_le : n.uncertifiedHashes.card ≤ n.knownBlocks.length :=
  calc n.uncertifiedHashes.card
      ≤ (n.knownBlocks.map (·.blockHash)).toFinset.card := Finset.card_filter_le _ _
    _ ≤ (n.knownBlocks.map (·.blockHash)).length := List.toFinset_card_le _
    _ = n.knownBlocks.length := List.length_map _

/-- No block was added and no known block lost its certificate. -/
structure Grows (n n' : Node) : Prop where
  known : ∀ b ∈ n'.knownBlocks, b ∈ n.knownBlocks
  certified : ∀ b ∈ n'.knownBlocks, n.hasQc b.blockHash = true → n'.hasQc b.blockHash = true

instance : IsPreorder Node Grows where
  refl _ := ⟨fun _ h => h, fun _ _ h => h⟩
  trans _ _ _ h h' := ⟨fun b hb => h.known b (h'.known b hb),
    fun b hb hqc => h'.certified b hb (h.certified b (h'.known b hb) hqc)⟩

theorem Grows.of_core (h : n'.core = n.core) : n.Grows n' where
  known b hb := by
    rw [knownBlocks, core_blocks h, core_pending h, core_orphanBlocks h] at hb
    exact hb
  certified b _ hqc := by
    rw [hasQc, core_certificates h]
    exact hqc

theorem Grows.uncertifiedHashes_subset (h : n.Grows n') :
    n'.uncertifiedHashes ⊆ n.uncertifiedHashes := by
  intro k hk
  obtain ⟨⟨b, hb, rfl⟩, hnone⟩ := mem_uncertifiedHashes.1 hk
  refine mem_uncertifiedHashes.2 ⟨⟨b, h.known b hb, rfl⟩, ?_⟩
  by_contra hqc
  rw [h.certified b hb (by simpa using hqc)] at hnone
  cases hnone

end Node

/-- Where no block arrives, a step adds none and keeps the certificates of the known blocks. -/
theorem Step.grows (h : Step E A n n') (hA : ¬A.takesBlocks) : n.Grows n' where
  known b hb := (h.knownBlocks hb).resolve_right fun hnew => hA hnew.takes
  certified b hb hqc := by
    have hadd (qc : QuorumCertificate) : (n.addQc qc).hasQc b.blockHash = true := by
      rw [Node.hasQc] at hqc ⊢
      simp [Node.addQc, Std.ExtTreeMap.contains_insert, hqc]
    cases h with
    | book h => exact (Node.Grows.of_core h).certified b hb hqc
    | replaceVotes => rw [Node.withoutVotes_eq]; exact hqc
    | storeVote | bufferVote => rw [Node.withoutVotes_eq]; exact hqc
    | buildQc qc | importQc qc => exact hadd qc
    | retainEvidence applied happlied =>
      rw [Node.hasQc, Std.ExtTreeMap.contains_eq_isSome_getElem?] at hqc ⊢
      obtain ⟨qc, hqc⟩ := Option.isSome_iff_exists.1 hqc
      have hkept : (n.retainEvidenceFor applied).quorumCertificates[b.blockHash]? = some qc := by
        rw [Node.retainEvidenceFor, Std.ExtTreeMap.getElem?_filter', hqc]
        simpa using hasBlock_iff.2 ⟨b, happlied b hb, rfl⟩
      rw [hkept]
      rfl
    | _ => exact hqc

theorem Steps.grows (h : Steps E A n n') (hA : ¬A.takesBlocks) : n.Grows n' := by
  induction h with
  | refl => exact refl_of Node.Grows n
  | tail _ hstep ih => exact trans_of Node.Grows ih (hstep.grows hA)

/-- What moves along steps without blocks only grows. -/
theorem Node.Grows.of_moves {α : Type} {m : NodeM α} (h : Proc.Moves (Acts E blockless) m n) :
    Proc.Moves Node.Grows m n :=
  h.mono fun _ hsteps => (hsteps blockless_covers).grows not_false

/-! ## On an adopted chain -/

/-- The node is on the chain to a block without a certificate. -/
structure OnUncertifiedTip (block : Block) (n : Node) : Prop where
  chain : n.buildChainToTip block.blockHash = some n.blocks
  uncertified : n.hasQc block.blockHash = false

theorem Node.buildChainToTip_congr (h : n'.knownBlocks = n.knownBlocks) (tipHash : HashBytes) :
    n'.buildChainToTip tipHash = n.buildChainToTip tipHash := by
  have hfound : n'.blockByHash = n.blockByHash := by
    funext k
    rw [blockByHash, h, blockByHash]
  have hwalk (fuel : Nat) (k : HashBytes) (visited : List HashBytes) (acc : List Block) :
      n'.walkToGenesis fuel k visited acc = n.walkToGenesis fuel k visited acc := by
    induction fuel generalizing k visited acc with
    | zero => rfl
    | succ fuel ih => simp only [walkToGenesis, hfound, ih]
  simp only [buildChainToTip, hwalk, h]

theorem Node.adopted_knownBlocks (ledger : LedgerState) (chain : List Block) :
    (n.adopted E ledger chain).knownBlocks = chain ++
      (n.blocks ++ n.orphanBlocks ++ n.pendingCertifiedChildren).filter fun block =>
        !hasBlock chain block.blockHash := by
  rw [knownBlocks, show (n.adopted E ledger chain).blocks = chain from rfl,
    show (n.adopted E ledger chain).pendingCertifiedChildren = [] from rfl, List.append_nil]
  rfl

/-- After a node adopted the chain to a tip, its blocks are the chain to that tip. -/
theorem Node.buildChainToTip_adopted {tipHash : HashBytes} {chain : List Block}
    (h : n.buildChainToTip tipHash = some chain) (ledger : LedgerState) :
    (n.adopted E ledger chain).buildChainToTip tipHash = some chain := by
  obtain ⟨-, hnumbered, rfl⟩ := buildChainToTip_eq_some h
  obtain ⟨hnodup, hblocks⟩ := buildChainToTip_distinct h
  refine buildChainToTip_of_numbered hnumbered fun b hb => ⟨(hblocks b hb).1, ?_⟩
  -- the orphans have other hashes than the chain, and its own are distinct
  cases hfound : (n.adopted E ledger chain).blockByHash b.blockHash with
  | none =>
    have hmem : b ∈ (n.adopted E ledger chain).knownBlocks := by
      rw [adopted_knownBlocks]
      exact List.mem_append_left _ hb
    exact absurd rfl (findBlock_eq_none.1 hfound b (List.mem_reverse.2 hmem))
  | some c =>
    obtain ⟨hc, hhash⟩ := blockByHash_eq_some hfound
    rw [adopted_knownBlocks] at hc
    rcases List.mem_append.1 hc with hc | hc
    · rw [List.inj_on_of_nodup_map hnodup hc hb hhash]
    · have hoff := hasBlock_eq_false.1 (by simpa using (List.mem_filter.1 hc).2) b hb
      exact absurd hhash.symm hoff

theorem compareBranchQuality_self (chain : List Block) :
    n.compareBranchQuality E chain chain = .eq := by
  simp [Node.compareBranchQuality]

/-- The chain a node is on is no candidate. -/
theorem voteSupportedCandidate_eq_none {blockHash : HashBytes}
    (h : ∀ chain, n.buildChainToTip blockHash = some chain → chain = n.blocks) :
    voteSupportedCandidate E n blockHash = none := by
  cases hc : voteSupportedCandidate E n blockHash with
  | none => rfl
  | some chain =>
    obtain ⟨-, -, hchain, -, hbetter⟩ := voteSupportedCandidate_eq_some hc
    rw [h chain hchain, compareBranchQuality_self] at hbetter
    cases hbetter

theorem OnUncertifiedTip.withoutCandidate {block : Block} (h : OnUncertifiedTip block n) :
    voteSupportedCandidate E n block.blockHash = none := by
  apply voteSupportedCandidate_eq_none
  intro chain hchain
  rw [h.chain] at hchain
  exact (Option.some.inj hchain).symm

/-- The fields that decide on which tip a node is. -/
def Node.chainFields (n : Node) : List Block × List Block × BTreeMap HashBytes QuorumCertificate :=
  (n.blocks, n.knownBlocks, n.quorumCertificates)

section
variable (h : n'.chainFields = n.chainFields)
include h

theorem Node.chainFields_blocks : n'.blocks = n.blocks := congrArg (·.1) h

theorem Node.chainFields_knownBlocks : n'.knownBlocks = n.knownBlocks := congrArg (·.2.1) h

theorem Node.chainFields_hasQc (k : HashBytes) : n'.hasQc k = n.hasQc k :=
  congrArg (fun fields => fields.2.2.contains k) h

theorem OnUncertifiedTip.of_chainFields {block : Block} (hs : OnUncertifiedTip block n) :
    OnUncertifiedTip block n' where
  chain := by
    rw [Node.buildChainToTip_congr (Node.chainFields_knownBlocks h), Node.chainFields_blocks h]
    exact hs.chain
  uncertified := (Node.chainFields_hasQc h _).trans hs.uncertified

theorem Node.chainFields_uncertifiedHashes : n'.uncertifiedHashes = n.uncertifiedHashes := by
  ext k
  rw [mem_uncertifiedHashes, mem_uncertifiedHashes, chainFields_knownBlocks h,
    chainFields_hasQc h]

end

theorem storeProposalVote_keeps_chain (vote : ProposalVote) :
    Proc.Keeps Node.chainFields (storeProposalVote E vote) n := by
  apply storeResolved_moves
  · rfl
  · intro conflicts _
    rw [Node.withoutVotes_eq]
    rfl
  · intro conflicts _ _
    rw [Node.withoutVotes_eq]
    rfl

theorem adoptCanonicalChain_ok {chain : List Block} {u : Unit}
    (h : (adoptCanonicalChain E chain).run n = .ok u n') :
    ∃ ledger, LedgerState.replayBlocks E.hashing E.crypto E.genesis chain = .ok ledger ∧
      n' = n.adopted E ledger chain := by
  cases hreplay : LedgerState.replayBlocks E.hashing E.crypto E.genesis chain with
  | error e =>
    unfold adoptCanonicalChain at h
    rw [hreplay] at h
    cases h
  | ok ledger =>
    rw [run_adoptCanonicalChain hreplay] at h
    cases h
    exact ⟨ledger, rfl, rfl⟩

/-- A node that adopts the chain to a block without a certificate is on it. -/
theorem OnUncertifiedTip.of_adopted {block : Block} {chain : List Block} {u : Unit}
    (hchain : n.buildChainToTip block.blockHash = some chain)
    (hnone : n.hasQc block.blockHash = false)
    (h : (adoptCanonicalChain E chain).run n = .ok u n') : OnUncertifiedTip block n' := by
  obtain ⟨ledger, -, rfl⟩ := adoptCanonicalChain_ok h
  exact ⟨Node.buildChainToTip_adopted hchain ledger, hnone⟩

theorem Node.highestLocalQc_eq_none :
    n.highestLocalQc = none ↔ ∀ b ∈ n.blocks, n.hasQc b.blockHash = false := by
  simp [highestLocalQc, hasQc, ← Std.ExtTreeMap.isSome_getElem?_eq_contains]

/-- Before any certificate, the tip of an adopted chain has none. -/
theorem OnUncertifiedTip.of_tip {tipHash : HashBytes} {chain : List Block} {tip : Block} {u : Unit}
    (hchain : n.buildChainToTip tipHash = some chain)
    (h : (adoptCanonicalChain E chain).run n = .ok u n') (htip : n'.blocks.getLast? = some tip)
    (hnone : n'.highestLocalQc = none) : OnUncertifiedTip tip n' := by
  obtain ⟨ledger, -, rfl⟩ := adoptCanonicalChain_ok h
  have htip' : chain.getLast? = some tip := htip
  refine ⟨?_, Node.highestLocalQc_eq_none.1 hnone tip (List.mem_of_getLast? htip)⟩
  have hend : tipFrom empty_hash chain = tip.blockHash := by
    obtain ⟨front, rfl⟩ := List.getLast?_eq_some_iff.1 htip'
    simp
  obtain rfl : tip.blockHash = tipHash := by
    rw [← hend, (Node.buildChainToTip_eq_some hchain).2.2]
  exact Node.buildChainToTip_adopted hchain ledger

theorem maybeBuildQc_none {blockHash : HashBytes}
    (h : (maybeBuildQc E blockHash).run n = .ok none n') : n' = n := by
  rcases maybeBuildQc_cases h with ⟨-, hsame⟩ | ⟨_, hqc, -⟩
  · exact hsame
  · cases hqc

theorem maybeBuildQc_hasQc {blockHash : HashBytes} {qc : QuorumCertificate}
    (h : (maybeBuildQc E blockHash).run n = .ok (some qc) n') : n'.hasQc blockHash = true := by
  rcases maybeBuildQc_cases h with ⟨hexisting, rfl⟩ | ⟨_, -, -, hadded⟩
  · rw [Node.hasQc, Std.ExtTreeMap.contains_eq_isSome_getElem?, hexisting]
    rfl
  · exact hadded

theorem maxBy_mem {α : Type} {cmp : α → α → Ordering} {xs : List α} {x : α}
    (h : maxBy cmp xs = some x) : x ∈ xs := by
  cases xs with
  | nil => cases h
  | cons y ys =>
    have hfold (zs : List α) (best : α) :
        zs.foldl (fun best z => if cmp best z = .gt then best else z) best ∈ best :: zs := by
      induction zs generalizing best with
      | nil => simp
      | cons z zs ih =>
        rw [List.foldl_cons]
        split_ifs
        · rcases List.mem_cons.1 (ih best) with h | h
          · simp [h]
          · simp [h]
        · exact List.mem_cons_of_mem _ (ih z)
    obtain rfl := Option.some.inj h
    exact hfold ys y

theorem Node.bestKnownUncertifiedChild_uncertified {child : Block}
    (h : n.bestKnownUncertifiedChildForCertifiedHead = some child) :
    n.hasQc child.blockHash = false := by
  have hmem := (List.mem_filter.1 (maxBy_mem h)).2
  simp only [Bool.and_eq_true, Bool.not_eq_true'] at hmem
  exact hmem.1

theorem buildLocalProposalVote_blockHash {block : Block} {vote : ProposalVote}
    (h : buildLocalProposalVote E block = .ok vote) : vote.blockHash = block.blockHash := by
  obtain ⟨signature, -, h⟩ := except_bind_ok.1 h
  cases h
  rfl

/-- No certificate: the state is as it was. -/
theorem maybeFinalizeQuorumCertificateWith_none {castVote : Block → NodeM Unit}
    {blockHash : HashBytes}
    (h : (maybeFinalizeQuorumCertificateWith E castVote blockHash).run n = .ok none n') :
    n' = n := by
  unfold maybeFinalizeQuorumCertificateWith at h
  rw [Proc.run_get_bind] at h
  obtain ⟨built, n₁, hrun, h⟩ := Proc.run_bind_eq_ok h
  cases built with
  | none =>
    cases h
    exact maybeBuildQc_none hrun
  | some qc =>
    obtain ⟨_, n₂, -, h⟩ := Proc.run_bind_eq_ok h
    obtain ⟨_, n₃, -, h⟩ := Proc.run_bind_eq_ok h
    dsimp only at h
    split_ifs at h
    · obtain ⟨_, n₄, -, h⟩ := Proc.run_bind_eq_ok h
      obtain ⟨_, n₅, -, h⟩ := Proc.run_bind_eq_ok h
      cases h
    · cases h

/-! ## The cycle -/

section Cycle

variable {castVote castVote' : Block → NodeM Unit} {hashes : Finset HashBytes}

/-- Two ways to vote match on an uncertified tip, where only these known hashes are uncertified. -/
def CastsMatch (castVote castVote' : Block → NodeM Unit) (hashes : Finset HashBytes) : Prop :=
  ∀ block n, OnUncertifiedTip block n → n.uncertifiedHashes ⊆ hashes →
    Matches (castVote block) (castVote' block) n

variable (hcast : CastsMatch castVote castVote' hashes)
include hcast

theorem maybeAdoptBetterUncertifiedChildWith_matches (hn : n.uncertifiedHashes ⊆ hashes) :
    Matches (maybeAdoptBetterUncertifiedChildWith E castVote)
      (maybeAdoptBetterUncertifiedChildWith E castVote') n := Matches.read <| by
  split
  · exact Matches.pure _
  · next child chain h =>
    obtain ⟨hbest, hchain⟩ := betterUncertifiedChild_eq_some h
    have hnone := Node.bestKnownUncertifiedChild_uncertified hbest
    refine (adoptCanonicalChain_total chain n).bind fun _ n₁ hrun => ?_
    have hgrows : n.Grows n₁ :=
      (Node.Grows.of_moves (adoptCanonicalChain_moves (.betterChild h))).ok hrun
    refine (hcast child n₁ (.of_adopted hchain hnone hrun)
      (hgrows.uncertifiedHashes_subset.trans hn)).bind fun _ _ _ => Matches.pure _

theorem maybeAdoptVoteSupportedBranchWith_matches (tipHash : HashBytes)
    (hn : n.uncertifiedHashes ⊆ hashes) :
    Matches (maybeAdoptVoteSupportedBranchWith E castVote tipHash)
      (maybeAdoptVoteSupportedBranchWith E castVote' tipHash) n := Matches.read <| by
  split
  · exact Matches.pure _
  · next chain h =>
    obtain ⟨-, -, hchain, -, -⟩ := voteSupportedCandidate_eq_some h
    refine (adoptCanonicalChain_total chain n).bind fun _ n₁ hrun => ?_
    have hgrows : n.Grows n₁ :=
      (Node.Grows.of_moves (adoptCanonicalChain_moves (.voteSupported tipHash h))).ok hrun
    refine Matches.bind (Matches.read (Matches.ite (fun _ => Matches.pure _) fun hactive => ?_))
      fun _ _ _ => Matches.pure _
    cases htip : n₁.blocks.getLast? with
    | none => exact Matches.pure _
    | some tip =>
      refine hcast tip n₁ (.of_tip hchain hrun htip ?_) (hgrows.uncertifiedHashes_subset.trans hn)
      cases hqc : n₁.highestLocalQc with
      | none => rfl
      | some qc => simp [hqc] at hactive

theorem maybeFinalizeQuorumCertificateWith_matches (blockHash : HashBytes)
    (hn : n.uncertifiedHashes.erase blockHash ⊆ hashes) :
    Matches (maybeFinalizeQuorumCertificateWith E castVote blockHash)
      (maybeFinalizeQuorumCertificateWith E castVote' blockHash) n := by
  refine Matches.read ((maybeBuildQc_total blockHash n).bind fun built n₁ hrun => ?_)
  cases built with
  | none => exact Matches.pure _
  | some qc =>
    have hgrows : n.Grows n₁ :=
      (Node.Grows.of_moves (maybeBuildQc_stepwise blockHash n)).ok hrun
    have hn₁ : n₁.uncertifiedHashes ⊆ hashes := by
      intro k hk
      refine hn (Finset.mem_erase.2 ⟨?_, hgrows.uncertifiedHashes_subset hk⟩)
      rintro rfl
      have hnone := (Node.mem_uncertifiedHashes.1 hk).2
      rw [maybeBuildQc_hasQc hrun] at hnone
      cases hnone
    refine (maybeAdoptCertifiedBranch_total _ n₁).bind fun _ n₂ hrun₂ => ?_
    have hgrows₂ : n₁.Grows n₂ :=
      (Node.Grows.of_moves (maybeAdoptCertifiedBranch_stepwise _ n₁)).ok hrun₂
    refine (maybeAdoptBetterUncertifiedChildWith_matches hcast
      (hgrows₂.uncertifiedHashes_subset.trans hn₁)).bind fun _ n₃ _ => ?_
    refine Matches.ite (fun _ => ?_) fun _ => Matches.pure _
    exact (NodeM.broadcast_total _).bind (fun _ => announceCertifiedProgress_total.thenPure) n₃

theorem advanceAfterVoteWith_matches (blockHash : HashBytes)
    (hn : n.uncertifiedHashes.erase blockHash ⊆ hashes)
    (hcandidate : voteSupportedCandidate E n blockHash = none ∨ n.uncertifiedHashes ⊆ hashes) :
    Matches (advanceAfterVoteWith E castVote blockHash)
      (advanceAfterVoteWith E castVote' blockHash) n := by
  have hfinalize := maybeFinalizeQuorumCertificateWith_matches (E := E) hcast blockHash hn
  refine hfinalize.bind fun built n₁ hrun => ?_
  cases built with
  | some qc => exact Matches.pure _
  | none =>
    obtain rfl := maybeFinalizeQuorumCertificateWith_none hrun
    refine Matches.bind ?_ fun _ _ _ => Matches.pure _
    rcases hcandidate with hcandidate | hn
    · refine Matches.read ?_
      rw [hcandidate]
      exact Matches.pure _
    · exact maybeAdoptVoteSupportedBranchWith_matches hcast blockHash hn

omit hcast in
/-- An import matches another if the two go on alike after the vote was stored. -/
theorem importProposalVoteWith_matches {vote : ProposalVote}
    (hadvance : ∀ n', n'.chainFields = n.chainFields →
      (∃ b ∈ n'.knownBlocks, b.blockHash = vote.blockHash) →
      Matches (advanceAfterVoteWith E castVote vote.blockHash)
        (advanceAfterVoteWith E castVote' vote.blockHash) n') :
    Matches (importProposalVoteWith E castVote vote) (importProposalVoteWith E castVote' vote)
      n := by
  refine Matches.ite (fun _ => Matches.throw _) fun _ => Matches.ofExcept_bind fun _ _ =>
    Matches.ofExcept_bind fun _ _ => Matches.read ?_
  cases hknown : n.knownBlock vote.blockHash with
  | none => exact storeBufferedProposalVote_total vote n
  | some block =>
    refine Matches.ite (fun _ => Matches.pure _) fun _ => Matches.ofExcept_bind fun _ _ =>
      (storeProposalVote_total vote n).bind fun inserted n₁ hrun => ?_
    have hkept := (storeProposalVote_keeps_chain vote).ok hrun
    refine Matches.ite (fun _ => ?_) fun _ => Matches.pure _
    refine (hadvance n₁ hkept ⟨block, ?_, (Node.knownBlock_eq_some hknown).2⟩).bind
      fun _ _ _ => Matches.pure _
    rw [Node.chainFields_knownBlocks hkept]
    exact (Node.knownBlock_eq_some hknown).1

theorem importProposalVoteWith_matches_within {vote : ProposalVote}
    (hn : n.uncertifiedHashes ⊆ hashes) :
    Matches (importProposalVoteWith E castVote vote) (importProposalVoteWith E castVote' vote) n :=
  importProposalVoteWith_matches fun n₁ hkept _ => by
    have hn₁ : n₁.uncertifiedHashes ⊆ hashes := by
      rw [Node.chainFields_uncertifiedHashes hkept]
      exact hn
    exact advanceAfterVoteWith_matches hcast _ ((Finset.erase_subset _ _).trans hn₁) (.inr hn₁)

end Cycle

/-- The node's own vote for an uncertified tip completes a certificate for it or moves nothing: every
vote it then casts is cast with fewer blocks without a certificate. -/
theorem maybeBroadcastLocalProposalVoteWith_matches {castVote castVote' : Block → NodeM Unit}
    {block : Block} (htip : OnUncertifiedTip block n)
    (hcast : ∀ block' n', OnUncertifiedTip block' n' →
      n'.uncertifiedHashes.card < n.uncertifiedHashes.card →
      Matches (castVote block') (castVote' block') n') :
    Matches (maybeBroadcastLocalProposalVoteWith E castVote block)
      (maybeBroadcastLocalProposalVoteWith E castVote' block) n := by
  refine Matches.ite (fun _ => Matches.pure _) fun _ => Matches.ofExcept_bind fun vote hvote => ?_
  refine (NodeM.emit_total (.voteSigned vote) n).bind fun _ n₁ hrun => ?_
  obtain rfl : n.withEffect (.voteSigned vote) = n₁ := by
    cases hrun
    rfl
  have hhash : vote.blockHash = block.blockHash := buildLocalProposalVote_blockHash hvote
  refine Matches.read (Matches.ite (fun _ => Matches.pure _) fun _ =>
    Matches.bind (Matches.attempt (importProposalVoteWith_matches fun n₂ hkept hknown => ?_))
      fun imported n₂ _ => ?_)
  · have hkept : n₂.chainFields = n.chainFields := hkept
    have htip₂ : OnUncertifiedTip block n₂ := htip.of_chainFields hkept
    rw [hhash] at hknown ⊢
    have hopen : block.blockHash ∈ n₂.uncertifiedHashes :=
      Node.mem_uncertifiedHashes.2 ⟨hknown, htip₂.uncertified⟩
    have heq : n₂.uncertifiedHashes = n.uncertifiedHashes :=
      Node.chainFields_uncertifiedHashes hkept
    have hcast' : CastsMatch castVote castVote' (n₂.uncertifiedHashes.erase block.blockHash) := by
      intro block' n' htip' hsub
      refine hcast block' n' htip' ?_
      rw [← heq]
      exact (Finset.card_le_card hsub).trans_lt (Finset.card_erase_lt_of_mem hopen)
    exact advanceAfterVoteWith_matches hcast' _ subset_rfl (.inl htip₂.withoutCandidate)
  · cases imported with
    | ok imported =>
      exact Matches.ite (fun _ => NodeM.broadcast_total _ _) fun _ => Matches.pure _
    | error e => exact Matches.ite (fun _ => Matches.pure _) fun _ => Matches.throw _

/-- On an uncertified tip, votes are cast alike with any fuel above the number of blocks without a
certificate. -/
theorem castVote_matches {block : Block} {fuel fuel' : Nat} (htip : OnUncertifiedTip block n)
    (h : n.uncertifiedHashes.card < fuel) (h' : n.uncertifiedHashes.card < fuel') :
    Matches (maybeBroadcastLocalProposalVote E fuel block)
      (maybeBroadcastLocalProposalVote E fuel' block) n :=
  Matches.of_fuel (F := maybeBroadcastLocalProposalVoteWith E) (fun _ => rfl) OnUncertifiedTip
    (fun n => n.uncertifiedHashes.card)
    (fun _ _ _ _ => maybeBroadcastLocalProposalVoteWith_matches) htip h h'

theorem castVotes_match (hashes : Finset HashBytes) {fuel fuel' : Nat} (h : hashes.card < fuel)
    (h' : hashes.card < fuel') :
    CastsMatch (maybeBroadcastLocalProposalVote E fuel) (maybeBroadcastLocalProposalVote E fuel')
      hashes := fun _ _ htip hsub =>
  castVote_matches htip ((Finset.card_le_card hsub).trans_lt h)
    ((Finset.card_le_card hsub).trans_lt h')

/-- With more fuel than there are blocks without a certificate, a vote is imported alike. -/
theorem importProposalVote_matches (vote : ProposalVote) {fuel fuel' : Nat}
    (h : n.uncertifiedHashes.card < fuel) (h' : n.uncertifiedHashes.card < fuel') :
    Matches (importProposalVote E fuel vote) (importProposalVote E fuel' vote) n :=
  importProposalVoteWith_matches_within (castVotes_match n.uncertifiedHashes h h') subset_rfl

/-- **Vote processing terminates.** From every state the import of a vote stops with a value or an
error, and it is the same run with any fuel above the number of known blocks. -/
theorem vote_processing_terminates (E : Env) (n : Node) (vote : ProposalVote) :
    ∃ outcome, outcome.state?.isSome ∧ ∀ fuel > n.knownBlocks.length,
      (importProposalVote E fuel vote).run n = outcome := by
  have hcard := n.card_uncertifiedHashes_le
  have hmatches {fuel : Nat} (h : n.knownBlocks.length < fuel) :
      Matches (importProposalVote E (n.knownBlocks.length + 1) vote)
        (importProposalVote E fuel vote) n :=
    importProposalVote_matches vote (by omega) (by omega)
  exact ⟨_, (hmatches (Nat.lt_succ_self _)).2, fun fuel h => (hmatches h).1.symm⟩

/-! ## Importing the votes of a chain -/

theorem importProposalVote_grows (fuel : Nat) (vote : ProposalVote) :
    Proc.Moves Node.Grows (importProposalVote E fuel vote) n :=
  Node.Grows.of_moves (importProposalVote_moves fuel (.inl trivial))

section Import

variable {fuel fuel' : Nat}

/-- A list of votes, imported one after the other, each with its error dropped. -/
theorem importVotes_matches (votes : List ProposalVote) (h : n.uncertifiedHashes.card < fuel)
    (h' : n.uncertifiedHashes.card < fuel') :
    Matches
      (Proc.forEach votes fun vote => do
        let _ ← Proc.attempt (importProposalVote E fuel vote)
        pure ())
      (Proc.forEach votes fun vote => do
        let _ ← Proc.attempt (importProposalVote E fuel' vote)
        pure ()) n := by
  refine Matches.forEach (R := Node.Grows) (fun vote _ n₁ _ => ?_) fun vote _ n₁ hgrows => ?_
  · exact (importProposalVote_grows fuel vote).attempt.bind fun _ _ _ => Proc.Moves.pure _
  · have hcard := Finset.card_le_card hgrows.uncertifiedHashes_subset
    exact (importProposalVote_matches vote (by omega) (by omega)).attempt.bind fun _ _ _ =>
      Matches.pure _

theorem importBufferedProposalVotesForBlock_grows (fuel : Nat) (block : Block) :
    Proc.Moves Node.Grows (importBufferedProposalVotesForBlock E fuel block) n :=
  Node.Grows.of_moves (importBufferedProposalVotesForBlock_stepwise fuel block n)

theorem importBufferedProposalVotesForBlock_matches (block : Block)
    (h : n.uncertifiedHashes.card < fuel) (h' : n.uncertifiedHashes.card < fuel') :
    Matches (importBufferedProposalVotesForBlock E fuel block)
      (importBufferedProposalVotesForBlock E fuel' block) n := Matches.read <| by
  split
  · exact Matches.pure _
  · next byValidator _ =>
    refine (Matches.modify _).bind fun _ n₁ hrun => ?_
    have hsame : n₁.uncertifiedHashes = n.uncertifiedHashes := by
      cases hrun
      exact Node.chainFields_uncertifiedHashes rfl
    exact importVotes_matches _ (hsame ▸ h) (hsame ▸ h')

theorem importVotesOfChain_matches (votes : List ProposalVote) (applied : List Block)
    (h : n.uncertifiedHashes.card < fuel) (h' : n.uncertifiedHashes.card < fuel') :
    Matches (importVotesOfChain E fuel votes applied) (importVotesOfChain E fuel' votes applied)
      n := by
  refine (importVotes_matches votes h h').bind fun _ n₁ hrun => ?_
  have hgrows : n.Grows n₁ :=
    (Proc.Moves.forEach fun vote _ n' _ =>
      (importProposalVote_grows (n := n') fuel vote).attempt.bind fun _ _ _ =>
        Proc.Moves.pure _).ok hrun
  have hcard := Finset.card_le_card hgrows.uncertifiedHashes_subset
  have hblocks : Matches (Proc.forEach applied (importBufferedProposalVotesForBlock E fuel))
      (Proc.forEach applied (importBufferedProposalVotesForBlock E fuel')) n₁ := by
    refine Matches.forEach (R := Node.Grows)
      (fun block _ n' _ => importBufferedProposalVotesForBlock_grows fuel block)
      fun block _ n' hgrows' => ?_
    have hcard' := Finset.card_le_card hgrows'.uncertifiedHashes_subset
    exact importBufferedProposalVotesForBlock_matches block (by omega) (by omega)
  exact hblocks.bind fun _ n₂ _ => (Matches.modify _).bind fun _ n₃ _ =>
    persistQuorumCertificates_total n₃

theorem importBufferedProposalVotesForBlock_infallible (fuel : Nat) (block : Block) :
    Proc.Infallible (importBufferedProposalVotesForBlock E fuel block) := .read fun n => by
  split
  · exact .pure _
  · exact .bind (.modify _) fun _ => .forEach fun _ => .bind (.attempt _) fun _ => .pure _

theorem importVotesOfChain_infallible (fuel : Nat) (votes : List ProposalVote)
    (applied : List Block) : Proc.Infallible (importVotesOfChain E fuel votes applied) :=
  .bind (.forEach fun _ => .bind (.attempt _) fun _ => .pure _) fun _ =>
    .bind (.forEach (importBufferedProposalVotesForBlock_infallible fuel)) fun _ =>
      .bind (.modify _) fun _ => .read fun _ => .modify _

end Import

end Entangrid
