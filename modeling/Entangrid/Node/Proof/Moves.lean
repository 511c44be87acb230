import Entangrid.Node.Proof.Stepwise
import Entangrid.Sample

/-!
# Votes, certificates and adoption as chains of steps

The voting cycle and what it is called from. A block or vote that an operation is given is traced
like those of the node: it arrived or the node made it.
-/

namespace Entangrid

open Proc (Moves)

variable {E : Env} {A : Source} {n n' : Node}

/-! ## Storing votes -/

theorem run_resolveConflictingProposalVote (vote : ProposalVote) :
    (resolveConflictingProposalVote E vote).run n =
      match n.conflictingVotes E vote with
      | .ok conflicts => .ok () (n.withoutVotes conflicts)
      | .error e => .err e n := by
  unfold resolveConflictingProposalVote
  rw [Proc.run_get_bind]
  cases hc : n.conflictingVotes E vote with
  | error e => rfl
  | ok conflicts =>
    exact Proc.run_forEach_modify conflicts Node.removeProposalVoteFromMaps n

/-- The two endings of storing a vote: nothing new, or the vote added. -/
theorem storeVoteUnlessHeld_moves {R : Node → Node → Prop} {existing : Option ProposalVote}
    {vote : ProposalVote} {add : Node → Node} {s : Node} (hkeep : R s n)
    (hadd : existing = none → R s (add n)) :
    ((storeVoteUnlessHeld E existing vote add).run n).Moved R s := by
  unfold storeVoteUnlessHeld
  cases existing with
  | none => exact hadd rfl
  | some held =>
    dsimp only
    split_ifs
    · exact hkeep
    · exact hkeep

/-- A vote is stored after what it is in conflict with was removed. -/
theorem storeResolved_moves {R : Node → Node → Prop} {vote : ProposalVote}
    {held : Node → Option ProposalVote} {add : Node → Node} (hrefl : R n n)
    (hdrop : ∀ conflicts, n.conflictingVotes E vote = .ok conflicts → R n (n.withoutVotes conflicts))
    (hadd : ∀ conflicts, n.conflictingVotes E vote = .ok conflicts →
      held (n.withoutVotes conflicts) = none → R n (add (n.withoutVotes conflicts))) :
    Moves R (do
      resolveConflictingProposalVote E vote
      let n ← Proc.get
      storeVoteUnlessHeld E (held n) vote add) n := by
  unfold Moves
  rw [Proc.run_bind, run_resolveConflictingProposalVote]
  cases hc : n.conflictingVotes E vote with
  | error e => exact hrefl
  | ok conflicts => exact storeVoteUnlessHeld_moves (hdrop conflicts hc) fun hnew => hadd conflicts hc hnew

theorem storeProposalVote_moves {vote : ProposalVote} {block : Block}
    (hknown : n.knownBlock vote.blockHash = some block)
    (hvalid : validateProposalVoteForBlock E vote block = .ok ()) (hsource : A.Vote n vote) :
    Moves (Acts E A) (storeProposalVote E vote) n := by
  apply storeResolved_moves
  · exact fun _ => .refl
  · exact fun _ hc _ => .single (.replaceVotes vote hc)
  · exact fun _ hc hnew _ => .single (.storeVote vote block hc hnew hknown hvalid hsource)

theorem storeBufferedProposalVote_moves {vote : ProposalVote}
    (hunknown : n.knownBlock vote.blockHash = none)
    (hvalid : validateProposalVoteSignatureAndSigner E vote = .ok ())
    (hpolicy : validateHybridProposalVotePolicy E vote = .ok ()) (hsource : A.Vote n vote) :
    Moves (Acts E A) (storeBufferedProposalVote E vote) n := by
  apply storeResolved_moves
  · exact fun _ => .refl
  · exact fun _ hc _ => .single (.replaceVotes vote hc)
  · exact fun _ hc hnew _ => .single (.bufferVote vote hc hnew hunknown hvalid hpolicy hsource)

theorem storeVoteUnlessHeld_true {existing : Option ProposalVote} {vote : ProposalVote}
    {add : Node → Node} (h : (storeVoteUnlessHeld E existing vote add).run n = .ok true n') :
    n' = add n := by
  unfold storeVoteUnlessHeld at h
  cases existing with
  | none =>
    cases h
    rfl
  | some held =>
    dsimp only at h
    split_ifs at h <;> cases h

/-- A store that reports a new vote has recorded it. -/
theorem storeProposalVote_true {vote : ProposalVote}
    (h : (storeProposalVote E vote).run n = .ok true n') :
    ∃ rivals, (vote, rivals) ∈ n'.storedVotes := by
  unfold storeProposalVote at h
  obtain ⟨_, n₁, -, h⟩ := Proc.run_bind_eq_ok h
  obtain rfl := storeVoteUnlessHeld_true h
  exact ⟨_, List.mem_cons_self⟩

theorem storeBufferedProposalVote_true {vote : ProposalVote}
    (h : (storeBufferedProposalVote E vote).run n = .ok true n') :
    ∃ rivals, (vote, rivals) ∈ n'.storedVotes := by
  unfold storeBufferedProposalVote at h
  obtain ⟨_, n₁, -, h⟩ := Proc.run_bind_eq_ok h
  obtain rfl := storeVoteUnlessHeld_true h
  exact ⟨_, List.mem_cons_self⟩

/-- Storing a vote does not touch the blocks. -/
theorem storeProposalVote_keeps_blocks (vote : ProposalVote) :
    Proc.Keeps Node.knownBlocks (storeProposalVote E vote) n := by
  apply storeResolved_moves
  · rfl
  · intro conflicts _
    rw [Node.withoutVotes_eq]
    rfl
  · intro conflicts _ _
    rw [Node.withoutVotes_eq]
    rfl

theorem validateQuorumCertificateForBlock_vote {qc : QuorumCertificate} {block : Block} {u : Unit}
    (h : validateQuorumCertificateForBlock E qc block = .ok u) {vote : ProposalVote}
    (hvote : vote ∈ qc.votes) :
    vote.blockHash = qc.blockHash ∧ validateProposalVoteForBlock E vote block = .ok () := by
  simp only [validateQuorumCertificateForBlock, except_bind_ok, rejectIf_ok, forM_ok] at h
  obtain ⟨-, -, -, hwf, -, -, -, -, hvotes⟩ := h
  simp only [QuorumCertificate.isWellFormed, Bool.not_eq_false', Bool.and_eq_true,
    List.all_eq_true, beq_iff_eq] at hwf
  exact ⟨(hwf.2 vote hvote).1.1.1, hvotes vote hvote⟩

theorem storeCertifiedVotes_moves {qc : QuorumCertificate} {block : Block}
    (hknown : n.knownBlock qc.blockHash = some block)
    (hvalid : validateQuorumCertificateForBlock E qc block = .ok ())
    (hsource : ∀ vote ∈ qc.votes, vote ∈ A.votes) :
    Moves (fun s s' => Acts E A s s' ∧ s'.knownBlocks = s.knownBlocks)
      (storeCertifiedVotes E qc.votes) n := by
  refine Moves.forEach fun vote hvote s hs => ?_
  obtain ⟨hhash, hvote'⟩ := validateQuorumCertificateForBlock_vote hvalid hvote
  refine Moves.bind (Moves.modify ⟨fun _ => .single (.dropConflicting vote), rfl⟩) fun _ s₁ h₁ => ?_
  obtain rfl : s.removeConflictingVotesForCertifiedVote vote = s₁ := by
    simpa using h₁
  have hknown' : (s.removeConflictingVotesForCertifiedVote vote).knownBlock vote.blockHash =
      some block := by
    rw [Node.knownBlock_eq_findBlock, hhash, ← hknown, Node.knownBlock_eq_findBlock]
    exact congrArg (findBlock · qc.blockHash) hs.2
  refine Moves.bind ?_ fun _ _ _ => Moves.pure _
  exact (storeProposalVote_moves hknown' hvote' (.inl (hsource vote hvote))).and
    (storeProposalVote_keeps_blocks vote)

/-! ## Adopting a chain -/

theorem persistQuorumCertificates_stepwise : Stepwise E A persistQuorumCertificates :=
  .read fun _ => .store _ rfl

theorem run_adoptCanonicalChain {chain : List Block} {ledger : LedgerState}
    (h : LedgerState.replayBlocks E.hashing E.crypto E.genesis chain = .ok ledger) :
    (adoptCanonicalChain E chain).run n = .ok () (n.adopted E ledger chain) := by
  have hreplay : (NodeM.check (LedgerState.replayBlocks E.hashing E.crypto E.genesis chain)).run n =
      .ok ledger n := by
    rw [h]
    rfl
  unfold adoptCanonicalChain
  rw [Proc.run_bind_of_ok hreplay, Proc.run_bind_of_ok (Proc.run_modify _ _),
    Proc.run_bind_of_ok (run_importCommitmentReceipts _)]
  rfl

theorem adoptCanonicalChain_moves {chain : List Block} (h : ChainSource E A n chain) :
    Moves (Acts E A) (adoptCanonicalChain E chain) n := by
  cases hreplay : LedgerState.replayBlocks E.hashing E.crypto E.genesis chain with
  | error e =>
    unfold adoptCanonicalChain
    rw [hreplay]
    exact fun _ => .refl
  | ok ledger =>
    unfold Moves
    rw [run_adoptCanonicalChain hreplay]
    exact fun _ => .single (.adopt h hreplay)

theorem maybeAdoptCertifiedBranch_stepwise (tipHash : HashBytes) :
    Stepwise E A (maybeAdoptCertifiedBranch E tipHash) := fun n => Moves.read <| by
  split
  · exact Moves.pure _
  · next chain hchain =>
    exact Acts.bind (adoptCanonicalChain_moves (.certified tipHash hchain)) fun _ _ _ _ =>
      Moves.pure _

/-! ## Certificates -/

theorem assembledQc_blockHash {blockHash : HashBytes} {qc : QuorumCertificate}
    (h : assembledQc E n blockHash = some qc) : qc.blockHash = blockHash := by
  obtain ⟨_, _, -, -, -, rfl⟩ := assembledQc_eq_some h
  rfl

example : (assembledQc (sampleEnv 1)
    { ledger := .fromGenesis sampleGenesis, blocks := [firstBlock]
      proposalVotes := [1, 2, 3].foldl (fun m v => VoteMap.store m (signedProposalVote v firstBlock)) ∅ }
    firstBlock.blockHash).map (fun qc => (qc.blockHash, qc.votes.map (·.validatorId))) =
      some (firstBlock.blockHash, [1, 2, 3]) := by
  decide +kernel

theorem maybeBuildQc_stepwise (blockHash : HashBytes) : Stepwise E A (maybeBuildQc E blockHash) :=
  fun n => Moves.read <| by
    split
    · exact Moves.pure _
    · next hnone =>
      split
      · exact Moves.pure _
      · next qc hqc =>
        obtain rfl := assembledQc_blockHash hqc
        have hnew : n.hasQc qc.blockHash = false := by
          simpa [Node.hasQc, ← Std.ExtTreeMap.isSome_getElem?_eq_contains] using hnone
        split_ifs with hmalformed
        · exact Moves.throw _
        · refine Acts.modify_bind (fun _ => .buildQc qc hnew hqc) <|
            Acts.modify_bind (fun _ => .emit (.qcBuilt qc) ⟨hqc, by simpa using hmalformed⟩) ?_
          refine Acts.bind (Stepwise.store _ rfl).moves fun _ n' _ _ => ?_
          exact Acts.modify_bind (fun _ => .prune _ _) (Moves.pure _)

/-- `maybe_build_qc` returns what it finds, or adds the certificate it has assembled. -/
theorem maybeBuildQc_cases {blockHash : HashBytes} {built : Option QuorumCertificate}
    (hrun : (maybeBuildQc E blockHash).run n = .ok built n') :
    (n.quorumCertificates[blockHash]? = built ∧ n' = n) ∨
      ∃ qc, built = some qc ∧ assembledQc E n blockHash = some qc ∧ n'.hasQc blockHash = true := by
  unfold maybeBuildQc at hrun
  rw [Proc.run_get_bind] at hrun
  split at hrun
  · next existing hexisting =>
    cases hrun
    exact .inl ⟨hexisting, rfl⟩
  · next hnone =>
    split at hrun
    · cases hrun
      exact .inl ⟨hnone, rfl⟩
    · next qc hqc =>
      obtain rfl := assembledQc_blockHash hqc
      split_ifs at hrun
      · cases hrun
      · cases hrun
        refine .inr ⟨qc, rfl, hqc, ?_⟩
        simp [Node.hasQc, Node.addQc, Node.withEffect, Node.pruneVotesNotExtendingCertifiedBlock]

/-- The votes of the certificate it returns are traced. -/
theorem maybeBuildQc_traced {blockHash : HashBytes} {qc : QuorumCertificate} (hc : A.Covers n)
    (hrun : (maybeBuildQc E blockHash).run n = .ok (some qc) n') {vote : ProposalVote}
    (hvote : vote ∈ qc.votes) : A.Vote n vote := by
  rcases maybeBuildQc_cases hrun with ⟨hexisting, -⟩ | ⟨built, hqc, hbuilt, -⟩
  · exact hc.certificates _ _ hexisting vote hvote
  · obtain rfl := Option.some.inj hqc
    exact hc.votes vote (assembledQc_holds hbuilt hvote)

/-! ## The voting cycle -/

section Cycle
variable {castVote : Block → NodeM Unit} (hcast : ∀ block, Stepwise E A (castVote block))
include hcast

theorem maybeAdoptBetterUncertifiedChildWith_stepwise :
    Stepwise E A (maybeAdoptBetterUncertifiedChildWith E castVote) := fun n => Moves.read <| by
  split
  · exact Moves.pure _
  · next child chain h =>
    exact Acts.bind (adoptCanonicalChain_moves (.betterChild h)) fun _ n' _ _ =>
      (hcast child).thenPure n'

theorem maybeBroadcastLocalVoteForCurrentPreQcTipWith_stepwise :
    Stepwise E A (maybeBroadcastLocalVoteForCurrentPreQcTipWith E castVote) :=
  .read fun _ => .unlessM <| by
    split
    · exact hcast _
    · exact .pure _

theorem maybeAdoptVoteSupportedBranchWith_stepwise (tipHash : HashBytes) :
    Stepwise E A (maybeAdoptVoteSupportedBranchWith E castVote tipHash) := fun n => Moves.read <| by
  split
  · exact Moves.pure _
  · next chain h =>
    exact Acts.bind (adoptCanonicalChain_moves (.voteSupported tipHash h)) fun _ n' _ _ =>
      (maybeBroadcastLocalVoteForCurrentPreQcTipWith_stepwise hcast).thenPure n'

theorem maybeFinalizeQuorumCertificateWith_stepwise (blockHash : HashBytes) :
    Stepwise E A (maybeFinalizeQuorumCertificateWith E castVote blockHash) := fun n => by
  refine Moves.read <| Acts.assume fun hc =>
    Moves.bind (maybeBuildQc_stepwise blockHash n) fun built n₁ hrun => ?_
  cases built with
  | none => exact Moves.pure _
  | some qc =>
    have h₁ := (maybeBuildQc_stepwise blockHash n).ok hrun hc
    have hvotes : ∀ vote ∈ qc.votes, A.Vote n₁ vote := fun vote hvote =>
      (maybeBuildQc_traced hc hrun hvote).mono h₁.effects_suffix
    refine Acts.bind (maybeAdoptCertifiedBranch_stepwise _ n₁) fun _ n₂ _ h₂ =>
      Acts.bind (maybeAdoptBetterUncertifiedChildWith_stepwise hcast n₂) fun _ n₃ _ h₃ => ?_
    dsimp only
    split_ifs
    · refine Acts.modify_bind (fun _ => .emit _ fun vote hvote => ?_)
        (Acts.books.announceCertifiedProgress.thenPure _)
      exact (hvotes vote hvote).mono (h₂.effects_suffix.trans h₃.effects_suffix)
    · exact Moves.pure _

theorem advanceAfterVoteWith_stepwise (blockHash : HashBytes) :
    Stepwise E A (advanceAfterVoteWith E castVote blockHash) :=
  (maybeFinalizeQuorumCertificateWith_stepwise hcast blockHash).bind fun
    | some _ => .pure _
    | none => (maybeAdoptVoteSupportedBranchWith_stepwise hcast _).thenPure

theorem importProposalVoteWith_moves {vote : ProposalVote} (hsource : A.Vote n vote) :
    Moves (Acts E A) (importProposalVoteWith E castVote vote) n := by
  unfold importProposalVoteWith
  split_ifs
  · exact Moves.throw _
  refine Moves.ofExcept_bind fun _ hsigner => Moves.ofExcept_bind fun _ hpolicy => Moves.read ?_
  split
  · next hunknown => exact storeBufferedProposalVote_moves hunknown hsigner hpolicy hsource
  · next block hknown =>
    split_ifs
    · exact Moves.pure _
    refine Moves.ofExcept_bind fun _ hvalid =>
      Acts.bind (storeProposalVote_moves hknown hvalid hsource) fun inserted n' _ _ => ?_
    exact Stepwise.moves (.ite (advanceAfterVoteWith_stepwise hcast _).thenPure (.pure _))

/-- An import that reports a new vote has recorded it. -/
theorem importProposalVoteWith_true {vote : ProposalVote} (hc : A.Covers n)
    (hsource : A.Vote n vote) (hrun : (importProposalVoteWith E castVote vote).run n = .ok true n') :
    ∃ rivals, (vote, rivals) ∈ n'.storedVotes := by
  unfold importProposalVoteWith at hrun
  by_cases hv2 : E.v2
  · simp only [hv2, Bool.not_true, Bool.false_eq_true, if_false] at hrun
    obtain ⟨_, -, hrun⟩ := Proc.ofExcept_bind_eq_ok hrun
    obtain ⟨_, -, hrun⟩ := Proc.ofExcept_bind_eq_ok hrun
    rw [Proc.run_get_bind] at hrun
    split at hrun
    · exact storeBufferedProposalVote_true hrun
    · next block hknown =>
      split_ifs at hrun
      · cases hrun
      obtain ⟨_, hvalid, hrun⟩ := Proc.ofExcept_bind_eq_ok hrun
      obtain ⟨inserted, n₁, hstore, hrun⟩ := Proc.run_bind_eq_ok hrun
      have h₁ := (storeProposalVote_moves hknown hvalid hsource).ok hstore hc
      cases inserted with
      | false => cases hrun
      | true =>
        obtain ⟨_, n₂, hadvance, hrun⟩ := Proc.run_bind_eq_ok hrun
        cases hrun
        have h₂ := (advanceAfterVoteWith_stepwise hcast _ n₁).ok hadvance (h₁.covers hc)
        obtain ⟨rivals, hstored⟩ := storeProposalVote_true hstore
        exact ⟨rivals, (h₂.effects_suffix.filterMap _).mem hstored⟩
  · simp only [hv2, Bool.not_false, if_true] at hrun
    cases hrun

theorem maybeBroadcastLocalProposalVoteWith_stepwise (block : Block) :
    Stepwise E A (maybeBroadcastLocalProposalVoteWith E castVote block) := fun n => by
  unfold maybeBroadcastLocalProposalVoteWith
  split_ifs
  · exact Moves.pure _
  refine Moves.ofExcept_bind fun vote hvote =>
    Acts.modify_bind (fun _ => .emit (.voteSigned vote) ⟨block, hvote⟩) <| Moves.read ?_
  split_ifs
  · exact Moves.pure _
  have hsigned : vote ∈ (n.withEffect (.voteSigned vote)).signedVotes := by
    simp [Node.signedVotes, Node.withEffect]
  have himport := importProposalVoteWith_moves hcast (.inr hsigned : A.Vote _ vote)
  refine Acts.assume fun hc => Moves.bind himport.attempt fun imported n' hrun => ?_
  have hsteps := himport.attempt.ok hrun hc
  cases imported with
  | ok imported =>
    dsimp only
    split_ifs with hnew
    · obtain rfl : imported = true := hnew
      refine Acts.modify fun _ => .emit _ ⟨(hsteps.effects_suffix.filterMap _).mem hsigned, ?_⟩
      exact importProposalVoteWith_true hcast hc (.inr hsigned) (Proc.run_of_attempt_ok hrun)
    · exact Moves.pure _
  | error e =>
    dsimp only
    split_ifs
    · exact Moves.pure _
    · exact Moves.throw _

end Cycle

section Closed
variable (fuel : Nat)

theorem castVote_stepwise (block : Block) :
    Stepwise E A (maybeBroadcastLocalProposalVote E fuel block) := by
  induction fuel generalizing block with
  | zero => exact .outOfFuel
  | succ fuel ih => exact maybeBroadcastLocalProposalVoteWith_stepwise ih block

theorem maybeFinalizeQuorumCertificate_stepwise (blockHash : HashBytes) :
    Stepwise E A (maybeFinalizeQuorumCertificate E fuel blockHash) :=
  maybeFinalizeQuorumCertificateWith_stepwise (castVote_stepwise fuel) blockHash

theorem maybeAdoptBetterUncertifiedChild_stepwise :
    Stepwise E A (maybeAdoptBetterUncertifiedChildForCertifiedHead E fuel) :=
  maybeAdoptBetterUncertifiedChildWith_stepwise (castVote_stepwise fuel)

theorem importProposalVote_moves {vote : ProposalVote} (hsource : A.Vote n vote) :
    Moves (Acts E A) (importProposalVote E fuel vote) n :=
  importProposalVoteWith_moves (castVote_stepwise fuel) hsource

/-! ## Importing certificates and buffered votes -/

theorem importQuorumCertificate_stepwise {qc : QuorumCertificate}
    (hsource : ∀ vote ∈ qc.votes, vote ∈ A.votes) :
    Stepwise E A (importQuorumCertificate E fuel qc) := fun n => by
  unfold importQuorumCertificate
  split_ifs
  · exact Moves.throw _
  refine Moves.read ?_
  split
  · exact Moves.throw _
  · next block hknown =>
    refine Moves.ofExcept_bind fun _ hvalid => ?_
    have hstore := storeCertifiedVotes_moves hknown hvalid hsource
    refine Moves.bind (hstore.mono fun _ h => h.1) fun _ n' hrun => Moves.read ?_
    split_ifs with hnew
    · exact Moves.pure _
    have hknown' : n'.knownBlock qc.blockHash = some block := by
      rw [Node.knownBlock_eq_findBlock, (hstore.ok hrun).2, ← Node.knownBlock_eq_findBlock, hknown]
    refine Acts.modify_bind
      (fun _ => .importQc qc block (by simpa using hnew) hknown' hvalid
        fun vote hvote => .inl (hsource vote hvote)) ?_
    refine Acts.bind (Stepwise.store _ rfl).moves fun _ n₁ _ _ => Acts.modify_bind (fun _ => .prune _ _) ?_
    exact (maybeAdoptCertifiedBranch_stepwise _).bind
      (fun _ => (maybeAdoptBetterUncertifiedChild_stepwise fuel).thenPure) _

theorem importBufferedProposalVotesForBlock_stepwise (block : Block) :
    Stepwise E A (importBufferedProposalVotesForBlock E fuel block) := fun n => Moves.read <| by
  split
  · exact Moves.pure _
  · next byValidator hbuffered =>
    refine Acts.assume fun hc => Acts.modify_bind (fun _ => .takeBuffered block.blockHash) ?_
    refine Moves.forEach fun vote hvote s hs => ?_
    -- the votes are still the node's, although they left the buffer
    have hvote' : A.Vote n vote := by
      obtain ⟨v, hv⟩ : ∃ v, byValidator[v]? = some vote := by
        simpa [Std.ExtTreeMap.mem_toList_iff_getElem?_eq_some] using hvote
      exact hc.votes vote
        ⟨block.blockHash, v, .inr (VoteMap.lookup_eq_some_iff.2 ⟨byValidator, hbuffered, hv⟩)⟩
    have hsteps := hs ((Step.takeBuffered (E := E) block.blockHash).covers hc)
    exact Acts.bind (importProposalVote_moves fuel (hvote'.mono hsteps.effects_suffix)).attempt
      fun _ _ _ _ => Moves.pure _

/-! ## Competing blocks -/

theorem maybeBroadcastVoteForCompetingBlock_stepwise (block : Block) :
    Stepwise E A (maybeBroadcastVoteForCompetingBlock E fuel block) :=
  .unlessM <| .read fun _ => .bind (.check _) fun _ => .whenM (castVote_stepwise fuel block)

theorem maybeAdoptPreferredCompetingBranch_moves {block : Block}
    (hvalid : validateReceivedBlock E block = .ok ()) (hsource : A.Block n block) :
    Moves (Acts E A) (maybeAdoptPreferredCompetingBranch E fuel block) n := Moves.read <| by
  split_ifs with hactive
  · exact Moves.pure _
  simp only [Bool.or_eq_true, Bool.not_eq_true', not_or, Bool.not_eq_true, Bool.not_eq_false]
    at hactive
  refine Moves.ofExcept_bind fun candidate hcandidate => ?_
  cases candidate with
  | none => exact Moves.pure _
  | some chain =>
    dsimp only
    split_ifs with hbetter
    · exact Moves.pure _
    refine Acts.bind (adoptCanonicalChain_moves (.competing hvalid hsource hactive.2 hactive.1
      hcandidate (by simpa using hbetter))) fun _ n' _ _ => ?_
    exact (maybeBroadcastLocalVoteForCurrentPreQcTipWith_stepwise
      (castVote_stepwise fuel)).thenPure n'

end Closed

end Entangrid
