import Entangrid.Lib.MapTotal
import Entangrid.Node.Proof.BlockStore
import Entangrid.Node.Proof.Quorum
import Entangrid.Node.Proof.Termination

/-!
# A block that stays the tip

A block that becomes the tip brings its votes with it: those that were buffered are imported, the node
adds its own, and the certificate they may complete lets the node move on to a child of the block. As
long as it knows at most one child, or the votes stay below the threshold, it does not
(`StandsOn`), and nothing fails.

* `acceptExtension_stays`: such a block is accepted, and the ledger is the one the block leads to.
-/

namespace Entangrid

open LedgerState
open Proc (Ends)

namespace Node

variable (n : Node) (blockHash : HashBytes)

/-- The known blocks that name a block as their parent. -/
def childrenOf : List Block := n.knownBlocks.filter (·.header.parentHash == blockHash)

/-- The validators with a stored or a buffered vote under a hash. -/
def votersFor : Finset ValidatorId :=
  ((n.proposalVotes.getD blockHash ∅).keys ++ (n.bufferedProposalVotes.getD blockHash ∅).keys).toFinset

end Node

section
variable {E : Env} {V : Finset ValidatorId} {block : Block} {ledger : LedgerState} {n n' : Node}

/-- A chain that replays can be exported. -/
theorem syncExportSnapshot_of_replay
    (h : replayBlocks E.hashing E.crypto E.genesis n.blocks = .ok n.ledger) (e : Error) :
    n.syncExportSnapshot E ≠ .error e := by
  intro he
  unfold Node.syncExportSnapshot at he
  dsimp only at he
  split_ifs at he
  rw [← n.blocks.take_append_drop n.syncExportPrefixLen] at h
  obtain ⟨l, htake, -⟩ := applyBlocks_append_ok h
  rw [replayBlocks, htake] at he
  cases he

/-- A node whose chain replays sends without an error. -/
theorem Sends.of_replay :
    Sends E (fun n => replayBlocks E.hashing E.crypto E.genesis n.blocks = .ok n.ledger)
      fun _ => False where
  effect _ _ h := h
  pushed _ _ _ h := h
  exports _ _ h he := absurd he (syncExportSnapshot_of_replay h _)

/-- A vote for the block, from one of `V`. -/
structure Supports (E : Env) (V : Finset ValidatorId) (block : Block) (v : ValidatorId)
    (vote : ProposalVote) : Prop where
  blockHash : vote.blockHash = block.blockHash
  voter : v ∈ V
  valid : validateProposalVoteForBlock E vote block = .ok ()

/-- The node is on the block, and what it holds on it does not move it on. -/
structure StandsOn (E : Env) (V : Finset ValidatorId) (block : Block) (ledger : LedgerState)
    (n : Node) : Prop where
  ledger : n.ledger = ledger
  replay : replayBlocks E.hashing E.crypto E.genesis n.blocks = .ok n.ledger
  tip : n.blocks.getLast?.map (·.blockHash) = some block.blockHash
  chain : ∀ c, n.buildChainToTip block.blockHash = some c → c = n.blocks
  known : n.knownBlock block.blockHash = some block
  /-- No other block of the chain has a certificate. -/
  lone : ∀ b ∈ n.blocks, n.hasQc b.blockHash = true → b.blockHash = block.blockHash
  keyed : ∀ qc, n.quorumCertificates[block.blockHash]? = some qc → qc.blockHash = block.blockHash
  votes : ∀ v vote, VoteMap.lookup n.proposalVotes block.blockHash v = some vote →
    Supports E V block v vote
  quiet : (n.childrenOf block.blockHash).length ≤ 1 ∨ (n.hasQc block.blockHash = false ∧
    V.card < quorumCertificateThreshold E.genesis.validators.length)

namespace StandsOn

/-- The chain stays, and the votes it gains support the block. -/
theorem keep (h : StandsOn E V block ledger n) (hfields : n'.chainFields = n.chainFields)
    (hledger : n'.ledger = n.ledger)
    (hvotes : ∀ v vote, VoteMap.lookup n'.proposalVotes block.blockHash v = some vote →
      VoteMap.lookup n.proposalVotes block.blockHash v = some vote ∨ Supports E V block v vote) :
    StandsOn E V block ledger n' := by
  have hblocks := Node.chainFields_blocks hfields
  have hknown := Node.chainFields_knownBlocks hfields
  have hqcs : n'.quorumCertificates = n.quorumCertificates := congrArg (·.2.2) hfields
  refine
    { ledger := hledger.trans h.ledger
      replay := by rw [hblocks, hledger, h.replay]
      tip := by rw [hblocks, h.tip]
      chain := fun c hc => ?_
      known := ?_
      lone := fun b hb hqc => ?_
      keyed := by rw [hqcs]; exact h.keyed
      votes := fun v vote hv => (hvotes v vote hv).elim (h.votes v vote) id
      quiet := ?_ }
  · rw [hblocks]
    exact h.chain c (by rwa [Node.buildChainToTip_congr hknown] at hc)
  · rw [Node.knownBlock_eq_findBlock, hknown, ← Node.knownBlock_eq_findBlock, h.known]
  · rw [Node.chainFields_hasQc hfields] at hqc
    exact h.lone b (hblocks ▸ hb) hqc
  · rw [Node.childrenOf, hknown, Node.chainFields_hasQc hfields]
    exact h.quiet

/-- It survives a send, and its exports succeed. -/
theorem sends : Sends E (StandsOn E V block ledger) fun _ => False where
  effect _ _ h := h.keep rfl rfl fun _ _ => .inl
  pushed _ _ _ h := h.keep rfl rfl fun _ _ => .inl
  exports _ _ h he := absurd he (syncExportSnapshot_of_replay h.replay _)

/-! ## Nothing moves the node on -/

theorem certifiedHead {head : HashBytes × Nat} (h : StandsOn E V block ledger n)
    (hhead : n.currentCertifiedHead = some head) :
    head.1 = block.blockHash ∧ n.hasQc block.blockHash = true := by
  obtain ⟨hash, hlocked, hrest⟩ := Option.bind_eq_some_iff.1 hhead
  obtain ⟨height, -, hrest⟩ := Option.bind_eq_some_iff.1 hrest
  obtain ⟨b, hb, rfl⟩ := Option.map_eq_some_iff.1 hlocked
  have hqc : n.hasQc b.blockHash = true := by simpa using List.find?_some hb
  have heq := h.lone b (by simpa using List.mem_of_find?_eq_some hb) hqc
  cases hrest
  exact ⟨heq, heq ▸ hqc⟩

theorem uncertifiedChildren_length (h : StandsOn E V block ledger n) :
    n.uncertifiedChildren.length ≤ 1 := by
  cases hhead : n.currentCertifiedHead with
  | none => simp [Node.uncertifiedChildren, Node.isDirectChildOfCurrentCertifiedHead, hhead]
  | some head =>
    obtain ⟨heq, hqc⟩ := h.certifiedHead hhead
    have hfew := h.quiet.resolve_right fun hnone => by simp [hqc] at hnone
    refine le_trans (List.Sublist.length_le ?_) hfew
    refine List.monotone_filter_right _ fun b hb => ?_
    simp only [Node.isDirectChildOfCurrentCertifiedHead, hhead, Bool.and_eq_true, beq_iff_eq] at hb
    simpa [heq] using hb.2.1

/-- The children that are told apart are no more than all of them. -/
theorem knownUncertifiedChildren_length_le (n : Node) :
    n.knownUncertifiedChildrenForCertifiedHead.length ≤ n.uncertifiedChildren.length := by
  have hfold (xs unique : List Block) : (xs.foldl (fun unique b =>
      if hasBlock unique b.blockHash then unique else unique ++ [b]) unique).length ≤
        unique.length + xs.length := by
    induction xs generalizing unique with
    | nil => simp
    | cons x xs ih =>
      refine (ih _).trans ?_
      dsimp only
      split_ifs
      · simp
      · simp
        omega
  simpa [Node.knownUncertifiedChildrenForCertifiedHead] using hfold n.uncertifiedChildren []

theorem noCurrentChild (h : StandsOn E V block ledger n) :
    n.currentUncertifiedChildForCertifiedHead = none := by
  cases hhead : n.currentCertifiedHead with
  | none => simp [Node.currentUncertifiedChildForCertifiedHead, hhead]
  | some head =>
    obtain ⟨tip, htip, heq⟩ := Option.map_eq_some_iff.1 h.tip
    simp [Node.currentUncertifiedChildForCertifiedHead, hhead, htip, heq, (h.certifiedHead hhead).1]

theorem noBetterChild (h : StandsOn E V block ledger n) : betterUncertifiedChild n = none := by
  have hlength := (knownUncertifiedChildren_length_le n).trans h.uncertifiedChildren_length
  have hfew : n.knownUncertifiedChildrenForCertifiedHead.length < 2 := by omega
  simp [betterUncertifiedChild, h.noCurrentChild, hfew]

theorem noCertifiedBranch (h : StandsOn E V block ledger n) :
    certifiedBranchCandidate E n block.blockHash = none := by
  cases hc : certifiedBranchCandidate E n block.blockHash with
  | none => rfl
  | some chain =>
    obtain ⟨hchain, hbetter⟩ := certifiedBranchCandidate_eq_some hc
    rw [h.chain chain hchain, compareBranchQuality_self] at hbetter
    cases hbetter

theorem noVoteSupported (h : StandsOn E V block ledger n) :
    voteSupportedCandidate E n block.blockHash = none := voteSupportedCandidate_eq_none h.chain

/-! ## The certificate -/

/-- A certificate that is built has supporters only, and there are enough of them. -/
theorem assembledQc (h : StandsOn E V block ledger n) (hpos : 0 < E.genesis.validators.length)
    {qc : QuorumCertificate} (hqc : assembledQc E n block.blockHash = some qc) :
    qc.blockHash = block.blockHash ∧ qc.isWellFormed E.hashing = true ∧
      quorumCertificateThreshold E.genesis.validators.length ≤ V.card := by
  obtain ⟨known, byValidator, hfound, hvotes, hsize, rfl⟩ := assembledQc_eq_some hqc
  obtain rfl : block = known := Option.some.inj (h.known.symm.trans hfound)
  have hsupports {v : ValidatorId} {vote : ProposalVote} (hv : byValidator[v]? = some vote) :
      Supports E V block v vote :=
    h.votes v vote (VoteMap.lookup_eq_some_iff.2 ⟨byValidator, hvotes, hv⟩)
  refine ⟨rfl, ?_, hsize.trans ?_⟩
  · have hlength : (byValidator.toList.map (·.2)).length = byValidator.size := by
      rw [List.length_map, Std.ExtTreeMap.length_toList]
    have hthreshold : 0 < quorumCertificateThreshold E.genesis.validators.length := by
      simp [quorumCertificateThreshold, Quorum.threshold, hpos.ne']
    have hnonempty : (byValidator.toList.map (·.2)).isEmpty = false := by
      rw [List.isEmpty_eq_false_iff, ← List.length_pos_iff]
      omega
    simp only [QuorumCertificate.isWellFormed, hnonempty, Bool.not_false, beq_self_eq_true,
      Bool.true_and, List.all_eq_true, Bool.and_eq_true, beq_iff_eq]
    intro vote hvote
    obtain ⟨v, hv⟩ := Std.ExtTreeMap.mem_values.1 hvote
    obtain ⟨-, -, hnumber, hepoch, hslot⟩ := validateProposalVoteForBlock_ok (hsupports hv).valid
    exact ⟨⟨⟨(hsupports hv).blockHash, hnumber⟩, hepoch⟩, hslot⟩
  · rw [← Std.ExtTreeMap.length_keys, ← List.toFinset_card_of_nodup Std.ExtTreeMap.nodup_keys]
    refine Finset.card_le_card fun v hv => ?_
    obtain ⟨vote, hvote⟩ : ∃ vote, byValidator[v]? = some vote := by
      rw [List.mem_toFinset, Std.ExtTreeMap.mem_keys, ← Std.ExtTreeMap.isSome_getElem?_iff_mem] at hv
      exact Option.isSome_iff_exists.1 hv
    exact (hsupports hvote).voter

theorem addQc (h : StandsOn E V block ledger n) {qc : QuorumCertificate}
    (hhash : qc.blockHash = block.blockHash) (hfew : (n.childrenOf block.blockHash).length ≤ 1) :
    StandsOn E V block ledger (n.addQc qc) := by
  refine
    { h with
      lone := fun b hb hqc => ?_
      keyed := fun qc' hqc' => ?_
      chain := fun c hc => ?_
      quiet := .inl hfew }
  · have hsame : (n.addQc qc).buildChainToTip block.blockHash =
        n.buildChainToTip block.blockHash := by
      apply Node.buildChainToTip_congr
      rfl
    exact h.chain c (hsame ▸ hc)
  · rw [Node.hasQc, Node.addQc, Std.ExtTreeMap.contains_insert, Bool.or_eq_true, beq_iff_eq] at hqc
    rcases hqc with hqc | hqc
    · exact (Std.LawfulEqCmp.compare_eq_iff_eq.1 hqc).symm.trans hhash
    · exact h.lone b hb hqc
  · rw [Node.getElem?_addQc, if_pos hhash] at hqc'
    exact Option.some.inj hqc' ▸ hhash

section
variable (hpos : 0 < E.genesis.validators.length) {castVote : Block → NodeM Unit}
include hpos

theorem maybeBuildQc_ends (h : StandsOn E V block ledger n) :
    Ends (StandsOn E V block ledger) (fun _ => False) (maybeBuildQc E block.blockHash) n :=
  Ends.read <| by
    split
    · exact .pure h
    · split
      · exact .pure h
      · next qc hqc =>
        obtain ⟨hhash, hformed, hthreshold⟩ := h.assembledQc hpos hqc
        have hfew := h.quiet.resolve_right fun ⟨_, hcard⟩ => by omega
        refine .ite (fun hbad => by simp [hformed] at hbad) fun _ => ?_
        refine .bind (.modify (h.addQc hhash hfew)) fun _ n₁ _ h₁ => ?_
        refine (sends.emit h₁ _).bind fun _ n₂ _ h₂ => (sends.emit h₂ _).bind fun _ n₃ _ h₃ => ?_
        refine .bind (.modify (h₃.keep rfl rfl fun v vote hv => .inl ?_)) fun _ _ _ h₄ => .pure h₄
        exact VoteMap.lookup_of_filter hv

omit hpos in
theorem maybeBuildQc_blockHash (h : StandsOn E V block ledger n) {qc : QuorumCertificate}
    (hrun : (maybeBuildQc E block.blockHash).run n = .ok (some qc) n') :
    qc.blockHash = block.blockHash := by
  rcases maybeBuildQc_cases hrun with ⟨hexisting, -⟩ | ⟨built, hqc, hbuilt, -⟩
  · exact h.keyed qc hexisting
  · obtain rfl := Option.some.inj hqc
    exact assembledQc_blockHash hbuilt

theorem maybeFinalizeQuorumCertificateWith_ends (h : StandsOn E V block ledger n) :
    Ends (StandsOn E V block ledger) (fun _ => False)
      (maybeFinalizeQuorumCertificateWith E castVote block.blockHash) n := by
  refine .read ((h.maybeBuildQc_ends hpos).bind fun built n₁ hrun h₁ => ?_)
  cases built with
  | none => exact .pure h₁
  | some qc =>
    have hhash := h.maybeBuildQc_blockHash hrun
    refine .bind (.read ?_) fun _ n₂ _ h₂ => .bind (.read ?_) fun _ n₃ _ h₃ => ?_
    · rw [hhash, h₁.noCertifiedBranch]
      exact .pure h₁
    · rw [h₂.noBetterChild]
      exact .pure h₂
    · refine .ite (fun _ => ?_) fun _ => .pure h₃
      exact (sends.emit h₃ _).bind fun _ _ _ h₄ => (sends.announceCertifiedProgress h₄).thenPure

theorem advanceAfterVoteWith_ends (h : StandsOn E V block ledger n) :
    Ends (StandsOn E V block ledger) (fun _ => False)
      (advanceAfterVoteWith E castVote block.blockHash) n := by
  refine (h.maybeFinalizeQuorumCertificateWith_ends hpos).bind fun built n₁ _ h₁ => ?_
  cases built with
  | some qc => exact .pure h₁
  | none =>
    refine .bind (.read ?_) fun _ _ _ h₂ => .pure h₂
    rw [h₁.noVoteSupported]
    exact .pure h₁

/-! ## Votes -/

/-- The vote passes all checks of its import. -/
def Passes (E : Env) (block : Block) (vote : ProposalVote) : Prop :=
  E.v2 = true ∧ validateProposalVoteForBlock E vote block = .ok ()

omit hpos in
theorem storeProposalVote_ends (h : StandsOn E V block ledger n) {vote : ProposalVote}
    (hvote : Supports E V block vote.validatorId vote) :
    Ends (StandsOn E V block ledger) (· = .conflictingProposalVote) (storeProposalVote E vote) n := by
  have hresolve : Ends (StandsOn E V block ledger) (· = .conflictingProposalVote)
      (resolveConflictingProposalVote E vote) n := by
    unfold Ends
    rw [run_resolveConflictingProposalVote]
    cases hc : n.conflictingVotes E vote with
    | error e =>
      unfold Node.conflictingVotes at hc
      dsimp only at hc
      split_ifs at hc
      cases hc
      exact ⟨rfl, h⟩
    | ok conflicts =>
      refine h.keep ?_ ?_ fun v x hx => .inl ((Node.votesShrink_withoutVotes _ _ v x).1 hx)
      · rw [Node.withoutVotes_eq]
        rfl
      · rw [Node.withoutVotes_eq]
  refine hresolve.bind fun _ n₁ _ h₁ => .read ?_
  unfold storeVoteUnlessHeld
  cases VoteMap.lookup n₁.proposalVotes vote.blockHash vote.validatorId with
  | some held => exact .ite (fun _ => .pure h₁) fun _ => .throw rfl h₁
  | none =>
    refine .bind (.modify (h₁.keep rfl rfl fun v x hx => ?_)) fun _ _ _ h₂ => .pure h₂
    rw [Node.addVote_proposalVotes, VoteMap.lookup_store] at hx
    split_ifs at hx with hkey
    · obtain rfl := Option.some.inj hx
      exact .inr (hkey.2 ▸ hvote)
    · exact .inl hx

/-- The import of a vote for the block comes back, and a vote that passes its checks fails only on a
conflict. -/
theorem importProposalVoteWith_ends (h : StandsOn E V block ledger n) {vote : ProposalVote}
    (hhash : vote.blockHash = block.blockHash) (hvoter : vote.validatorId ∈ V) :
    Ends (StandsOn E V block ledger) (fun e => Passes E block vote → e = .conflictingProposalVote)
      (importProposalVoteWith E castVote vote) n := by
  refine .ite (fun hv1 => .throw (fun hpass => by simp [hpass.1] at hv1) h) fun _ => ?_
  refine .ofExcept_bind h (fun e he hpass => ?_) fun _ _ =>
    .ofExcept_bind h (fun e he hpass => ?_) fun _ _ => .read ?_
  · obtain ⟨_, hsigner, -⟩ := except_bind_ok.1 hpass.2
    rw [hsigner] at he
    cases he
  · obtain ⟨_, -, hrest⟩ := except_bind_ok.1 hpass.2
    obtain ⟨_, hpolicy, -⟩ := except_bind_ok.1 hrest
    rw [hpolicy] at he
    cases he
  · rw [hhash, h.known]
    refine .ite (fun _ => .pure h) fun _ => .ofExcept_bind h (fun e he hpass => ?_) fun _ hvalid => ?_
    · rw [hpass.2] at he
      cases he
    · refine ((h.storeProposalVote_ends ⟨hhash, hvoter, hvalid⟩).mono fun e he _ => he).bind
        fun inserted n₁ _ h₁ => ?_
      refine .ite (fun _ => .bind ?_ fun _ _ _ h₂ => .pure h₂) fun _ => .pure h₁
      exact (h₁.advanceAfterVoteWith_ends hpos).mono fun _ => False.elim

theorem importBufferedProposalVotesForBlock_ends (h : StandsOn E V block ledger n)
    (hbuffered : ∀ v vote, VoteMap.lookup n.bufferedProposalVotes block.blockHash v = some vote →
      vote.blockHash = block.blockHash ∧ vote.validatorId ∈ V) (fuel : Nat) :
    Ends (StandsOn E V block ledger) (fun _ => False)
      (importBufferedProposalVotesForBlock E fuel block) n := Ends.read <| by
  split
  · exact .pure h
  · next byValidator hfound =>
    refine .bind (.modify (h.keep rfl rfl fun _ _ => .inl)) fun _ n₁ _ h₁ =>
      .forEach h₁ fun vote hvote n₂ h₂ => ?_
    obtain ⟨v, hv⟩ := Std.ExtTreeMap.mem_values.1 hvote
    obtain ⟨hhash, hvoter⟩ :=
      hbuffered v vote (VoteMap.lookup_eq_some_iff.2 ⟨byValidator, hfound, hv⟩)
    exact (h₂.importProposalVoteWith_ends hpos hhash hvoter).attempt.bind fun _ _ _ h₃ => .pure h₃

/-- The node's own vote for the block is cast. -/
theorem maybeBroadcastLocalProposalVote_ends (h : StandsOn E V block ledger n) (hme : E.me ∈ V)
    (hown : E.v2 = true → ∃ vote, buildLocalProposalVote E block = .ok vote ∧
      validateProposalVoteForBlock E vote block = .ok ()) (fuel : Nat) :
    Ends (StandsOn E V block ledger) (fun _ => False)
      (maybeBroadcastLocalProposalVote E (fuel + 1) block) n := by
  refine .ite (fun _ => .pure h) fun hv2 => ?_
  have hv2 : E.v2 = true := by simpa using hv2
  obtain ⟨vote, hbuild, hvalid⟩ := hown hv2
  refine .ofExcept_bind h (fun e he => by simp [hbuild] at he) fun vote' hvote' => ?_
  obtain rfl : vote = vote' := Except.ok.inj (hbuild.symm.trans hvote')
  have hvoter : vote.validatorId ∈ V := by
    obtain ⟨signature, -, hbuild⟩ := except_bind_ok.1 hbuild
    cases hbuild
    exact hme
  refine (sends.emit h _).bind fun _ n₁ _ h₁ => .read (.ite (fun _ => .pure h₁) fun _ => ?_)
  have himport : Ends (StandsOn E V block ledger)
      (fun e => Passes E block vote → e = .conflictingProposalVote)
      (importProposalVoteWith E (maybeBroadcastLocalProposalVote E fuel) vote) n₁ :=
    h₁.importProposalVoteWith_ends hpos (buildLocalProposalVote_blockHash hbuild) hvoter
  refine himport.attempt.bind fun result n₂ hrun h₂ => ?_
  cases result with
  | ok imported => exact .ite (fun _ => sends.emit h₂ _) fun _ => .pure h₂
  | error e =>
    obtain rfl : e = .conflictingProposalVote := himport.attempt_error hrun ⟨hv2, hvalid⟩
    exact .ite (fun _ => .pure h₂) fun hother => absurd (by decide +kernel) hother

end

end StandsOn

/-! ## Extending the chain -/

/-- What the node holds when a block becomes the tip: no certificate on its chain, votes and a possible
certificate that belong to the block, and not enough of them, or of children, to move it on. -/
structure ReadyFor (E : Env) (V : Finset ValidatorId) (block : Block) (n : Node) : Prop where
  uncertified : ∀ b ∈ n.blocks, n.hasQc b.blockHash = false
  keyed : ∀ qc, n.quorumCertificates[block.blockHash]? = some qc → qc.blockHash = block.blockHash
  votes : ∀ v vote, VoteMap.lookup n.proposalVotes block.blockHash v = some vote →
    Supports E V block v vote
  buffered : ∀ v vote, VoteMap.lookup n.bufferedProposalVotes block.blockHash v = some vote →
    vote.blockHash = block.blockHash ∧ vote.validatorId ∈ V
  quiet : (n.childrenOf block.blockHash).length ≤ 1 ∨ (n.hasQc block.blockHash = false ∧
    V.card < quorumCertificateThreshold E.genesis.validators.length)

/-- The chain that ends in the tip is the node's chain. -/
theorem BlockStore.eq_of_buildChainToTip (h : BlockStore E n)
    (hnonempty : ∀ b ∈ n.blocks, b.blockHash ≠ empty_hash) {c : List Block}
    (hc : n.buildChainToTip (tipFrom empty_hash n.blocks) = some c) : c = n.blocks := by
  have hpath : n.ParentPath (tipFrom empty_hash n.blocks) n.blocks :=
    .of_linkedFrom h.linked fun b hb =>
      ⟨hnonempty b hb, (Node.HashesIdentify.of_nodup h.distinct).blockByHash
        (Node.mem_knownBlocks.2 (.inl hb))⟩
  exact (Node.buildChainToTip_iff.1 hc).1.unique hpath

/-- A new block on the tip is not its own parent. -/
theorem parent_ne_of_new {hash : HashBytes} (hnew : n.knownBlock hash = none)
    (hne : hash ≠ empty_hash) : tipFrom empty_hash n.blocks ≠ hash := by
  intro heq
  rcases List.eq_nil_or_concat n.blocks with hnil | ⟨front, last, hblocks⟩
  · rw [hnil] at heq
    exact hne heq.symm
  · have hlast : last ∈ n.knownBlocks := Node.mem_knownBlocks.2 (.inl (by simp [hblocks]))
    refine Node.knownBlock_eq_none.1 hnew last hlast ?_
    simpa [hblocks] using heq

theorem StandsOn.of_extended (hstore : BlockStore E (n.extended ledger block))
    (hnonempty : ∀ b ∈ n.blocks ++ [block], b.blockHash ≠ empty_hash)
    (hready : ReadyFor E V block n) (hself : block.header.parentHash ≠ block.blockHash) :
    StandsOn E V block ledger (n.extended ledger block) where
  ledger := rfl
  replay := hstore.replay
  tip := by simp [Node.extended, Node.written, Node.withEffect, Node.extendedBy]
  chain c hc := by
    refine hstore.eq_of_buildChainToTip hnonempty ?_
    have htip : tipFrom empty_hash (n.extended ledger block).blocks = block.blockHash := by
      simp [Node.extended, Node.written, Node.withEffect, Node.extendedBy]
    rwa [htip]
  known := (Node.HashesIdentify.of_nodup hstore.distinct).knownBlock
    (Node.mem_knownBlocks.2 (.inl (List.mem_append_right _ (List.mem_singleton_self _))))
  lone b hb hqc := by
    rcases List.mem_append.1 hb with hb | hb
    · rw [show (n.extended ledger block).hasQc b.blockHash = n.hasQc b.blockHash from rfl,
        hready.uncertified b hb] at hqc
      cases hqc
    · rw [List.mem_singleton.1 hb]
  keyed := hready.keyed
  votes := hready.votes
  quiet := by
    have hperm : (n.extended ledger block).knownBlocks.Perm (block :: n.knownBlocks) := by
      simp only [Node.extended, Node.written, Node.withEffect, Node.extendedBy, Node.knownBlocks,
        List.append_assoc, List.singleton_append]
      exact List.perm_middle
    have hchildren : ((n.extended ledger block).childrenOf block.blockHash).length =
        (n.childrenOf block.blockHash).length := by
      have hlength := (hperm.filter (·.header.parentHash == block.blockHash)).length_eq
      rwa [List.filter_cons_of_neg (by simpa using hself)] at hlength
    rw [hchildren]
    exact hready.quiet

/-- An extension is accepted whenever it returns. -/
theorem acceptExtension_accepted {fuel : Nat} {acceptance : BlockAcceptance}
    (h : (acceptExtension E fuel block ledger).run n = .ok acceptance n') : acceptance = .accepted := by
  unfold acceptExtension at h
  repeat obtain ⟨_, _, -, h⟩ := Proc.run_bind_eq_ok h
  cases h
  rfl

/-- **A block that stays the tip.** A node that is ready for a block and can vote for it accepts it as
the tip, with the ledger it leads to. -/
theorem acceptExtension_stays (hpos : 0 < E.genesis.validators.length)
    (hstore : BlockStore E (n.extended ledger block))
    (hnonempty : ∀ b ∈ n.blocks ++ [block], b.blockHash ≠ empty_hash)
    (hready : ReadyFor E V block n) (hself : block.header.parentHash ≠ block.blockHash) (hme : E.me ∈ V)
    (hown : E.v2 = true → ∃ vote, buildLocalProposalVote E block = .ok vote ∧
      validateProposalVoteForBlock E vote block = .ok ()) (fuel : Nat) : ∃ n',
    (acceptExtension E (fuel + 1) block ledger).run n = .ok .accepted n' ∧ n'.ledger = ledger := by
  have hextended := StandsOn.of_extended hstore hnonempty hready hself
  -- up to the receipts every step is certain
  have hrun : (acceptExtension E (fuel + 1) block ledger).run n = (do
      importBufferedProposalVotesForBlock E (fuel + 1) block
      let _ ← maybeFinalizeQuorumCertificate E (fuel + 1) block.blockHash
      Proc.modify (·.dropFromMempool block.transactions)
      NodeM.emit (.mempoolCleared (block.transactions.map (·.txHash)))
      maybeBroadcastLocalProposalVote E (fuel + 1) block
      let _ ← Proc.attempt (maybePushTipProgressToStalePeers E)
      pure .accepted : NodeM BlockAcceptance).run
        ((n.extended ledger block).withCommitmentReceipts E block.commitmentReceipts) :=
    Proc.run_bind_of_ok (s := n.extended ledger block)
      (run_importCommitmentReceipts block.commitmentReceipts)
  have hstands : StandsOn E V block ledger
      ((n.extended ledger block).withCommitmentReceipts E block.commitmentReceipts) :=
    hextended.keep rfl rfl fun _ _ => .inl
  have hends : Ends (StandsOn E V block ledger) (fun _ => False)
      (acceptExtension E (fuel + 1) block ledger) n := by
    unfold Ends
    rw [hrun]
    refine (hstands.importBufferedProposalVotesForBlock_ends hpos hready.buffered _).bind
      fun _ n₁ _ h₁ => (h₁.maybeFinalizeQuorumCertificateWith_ends hpos).bind fun _ n₂ _ h₂ => ?_
    refine .bind (.modify (h₂.keep rfl rfl fun _ _ => .inl)) fun _ n₃ _ h₃ =>
      (StandsOn.sends.emit h₃ _).bind fun _ n₄ _ h₄ => ?_
    refine (h₄.maybeBroadcastLocalProposalVote_ends hpos hme hown fuel).bind fun _ n₅ _ h₅ => ?_
    exact (StandsOn.sends.maybePushTipProgress h₅).attempt.bind fun _ _ _ h₆ => .pure h₆
  obtain ⟨acceptance, n', hok, hn'⟩ := hends.returns
  obtain rfl := acceptExtension_accepted hok
  exact ⟨n', hok, hn'.ledger⟩

end

end Entangrid
