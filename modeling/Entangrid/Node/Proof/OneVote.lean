import Entangrid.Node.Proof.Handlers
import Entangrid.Sample

/-!
# One vote per height at a time

A node may vote for several blocks of one height, but never stands by two at once: a vote is stored
only after the voter's votes for other blocks of that height were removed, and handed to the network
only after it was stored.

* `VoteInv`: the invariant of the vote maps and of the effects.
* `votes_handed_out_alone`: what it says of the votes a node hands out.
-/

namespace Entangrid

variable {E : Env} {A : Source} {n n' : Node}

/-- A vote found under a block and a validator, in one of the two maps. -/
def Node.Found (n : Node) (h : HashBytes) (v : ValidatorId) (x : ProposalVote) : Prop :=
  VoteMap.lookup n.proposalVotes h v = some x ∨ VoteMap.lookup n.bufferedProposalVotes h v = some x

theorem Node.mem_heldVotesOf_iff {v : ValidatorId} {x : ProposalVote} :
    x ∈ n.heldVotesOf v ↔ ∃ h, n.Found h v x := Node.mem_heldVotesOf

theorem Node.VotesShrink.found (hs : VotesShrink n n') {h : HashBytes} {v : ValidatorId}
    {x : ProposalVote} (hf : n'.Found h v x) : n.Found h v x :=
  hf.imp (hs h v x).1 (hs h v x).2

/-- Two votes for one height or for one slot. -/
def ProposalVote.Rivals (x y : ProposalVote) : Prop :=
  x.blockNumber = y.blockNumber ∨ (x.epoch = y.epoch ∧ x.slot = y.slot)

theorem ProposalVote.Rivals.symm {x y : ProposalVote} (h : x.Rivals y) : y.Rivals x :=
  h.imp Eq.symm (And.imp Eq.symm Eq.symm)

structure VoteInv (E : Env) (n : Node) : Prop where
  /-- A vote lies under its own block and validator. -/
  keyed : ∀ h v x, n.Found h v x → x.blockHash = h ∧ x.validatorId = v
  /-- It is correctly signed by a validator. -/
  signer : ∀ h v x, n.Found h v x → validateProposalVoteSignatureAndSigner E x = .ok ()
  unique : ∀ v, ∀ x ∈ n.heldVotesOf v, ∀ y ∈ n.heldVotesOf v, x.Rivals y → x.blockHash = y.blockHash
  /-- A vote is stored next to no rival. -/
  alone : ∀ p ∈ n.storedVotes, p.2 = []
  own : ∀ vote ∈ n.signedVotes, vote.validatorId = E.me
  /-- A vote is handed out after it was signed and stored. -/
  handedOut : ∀ vote earlier, (.broadcast (.proposalVote vote) :: earlier) <:+ n.effects →
    vote.validatorId = E.me ∧ ∃ rivals, .voteStored vote rivals ∈ earlier

namespace VoteInv

/-- A node without votes that has done nothing yet. -/
theorem of_empty (hp : n.proposalVotes = ∅) (hb : n.bufferedProposalVotes = ∅)
    (he : n.effects = []) : VoteInv E n where
  keyed h v x hf := by simp [Node.Found, hp, hb] at hf
  signer h v x hf := by simp [Node.Found, hp, hb] at hf
  unique v x hx := by
    obtain ⟨h, hf⟩ := Node.mem_heldVotesOf_iff.1 hx
    simp [Node.Found, hp, hb] at hf
  alone := by simp [Node.storedVotes, he]
  own := by simp [Node.signedVotes, he]
  handedOut vote earlier h := by simp [he] at h

theorem fresh (slot : Option Slot) : VoteInv E (Node.fresh E slot) := of_empty rfl rfl rfl

/-- Votes go, and nothing but writes is recorded. -/
theorem of_shrink (h : VoteInv E n) (hs : Node.VotesShrink n n') (he : n.OnlyWrites n') :
    VoteInv E n' where
  keyed k v x hf := h.keyed k v x (hs.found hf)
  signer k v x hf := h.signer k v x (hs.found hf)
  unique v x hx y hy := by
    obtain ⟨k, hx⟩ := Node.mem_heldVotesOf_iff.1 hx
    obtain ⟨k', hy⟩ := Node.mem_heldVotesOf_iff.1 hy
    exact h.unique v x (Node.mem_heldVotesOf_iff.2 ⟨k, hs.found hx⟩) y
      (Node.mem_heldVotesOf_iff.2 ⟨k', hs.found hy⟩)
  alone p hp := by
    rw [← Prod.mk.eta (p := p), Node.mem_storedVotes] at hp
    exact h.alone p (by rw [← Prod.mk.eta (p := p), Node.mem_storedVotes]; exact he.mem hp (by simp))
  own vote hvote :=
    h.own vote (Node.mem_signedVotes.2 (he.mem (Node.mem_signedVotes.1 hvote) (by simp)))
  handedOut vote earlier hsuffix := h.handedOut vote earlier (he.suffix hsuffix (by simp))

/-- An effect is recorded and the votes stay. -/
theorem record (h : VoteInv E n) {effect : Effect}
    (hstored : ∀ vote rivals, effect = .voteStored vote rivals → rivals = [])
    (hsigned : ∀ vote, effect = .voteSigned vote → vote.validatorId = E.me)
    (hhanded : ∀ vote, effect = .broadcast (.proposalVote vote) →
      vote.validatorId = E.me ∧ ∃ rivals, .voteStored vote rivals ∈ n.effects) :
    VoteInv E (n.withEffect effect) where
  keyed := h.keyed
  signer := h.signer
  unique := h.unique
  alone p hp := by
    rw [← Prod.mk.eta (p := p), Node.mem_storedVotes] at hp
    rcases List.mem_cons.1 hp with hp | hp
    · exact hstored p.1 p.2 hp.symm
    · exact h.alone p (by rw [← Prod.mk.eta (p := p), Node.mem_storedVotes]; exact hp)
  own vote hvote := by
    rcases List.mem_cons.1 (Node.mem_signedVotes.1 hvote) with hvote | hvote
    · exact hsigned vote hvote.symm
    · exact h.own vote (Node.mem_signedVotes.2 hvote)
  handedOut vote earlier hsuffix := by
    rcases List.suffix_cons_iff.1 hsuffix with heq | hsuffix
    · cases heq
      exact hhanded vote rfl
    · exact h.handedOut vote earlier hsuffix

/-- An effect that is as it should be. -/
theorem emit (h : VoteInv E n) {effect : Effect} (heffect : EffectOk E A n effect) :
    VoteInv E (n.withEffect effect) := by
  apply h.record
  · intro vote rivals heq
    subst heq
    exact heffect.elim
  · intro vote heq
    subst heq
    obtain ⟨block, hbuild⟩ := heffect
    obtain ⟨_, -, hbuild⟩ := except_bind_ok.1 hbuild
    cases hbuild
    rfl
  · intro vote heq
    subst heq
    obtain ⟨hsigned, rivals, hstored⟩ := heffect
    exact ⟨h.own vote hsigned, rivals, Node.mem_storedVotes.1 hstored⟩

/-- An effect that is not about votes. -/
theorem note (h : VoteInv E n) {effect : Effect} (hstored : ∀ vote rivals, effect ≠ .voteStored vote rivals)
    (hsigned : ∀ vote, effect ≠ .voteSigned vote)
    (hhanded : ∀ vote, effect ≠ .broadcast (.proposalVote vote)) : VoteInv E (n.withEffect effect) :=
  h.record (fun vote rivals heq => absurd heq (hstored vote rivals))
    (fun vote heq => absurd heq (hsigned vote)) fun vote heq => absurd heq (hhanded vote)

/-- What is left of a voter's votes after those in conflict with `vote` were removed has no rival of
`vote`. -/
theorem no_rival (h : VoteInv E n) {vote : ProposalVote} {conflicts : List ProposalVote}
    (hc : n.conflictingVotes E vote = .ok conflicts) {k : HashBytes} {x : ProposalVote}
    (hf : (n.withoutVotes conflicts).Found k vote.validatorId x) (hrival : x.Rivals vote) :
    x.blockHash = vote.blockHash := by
  by_contra hne
  have hheld : x ∈ n.heldVotesOf vote.validatorId :=
    Node.mem_heldVotesOf_iff.2 ⟨k, (Node.votesShrink_withoutVotes _).found hf⟩
  obtain ⟨hk, hv⟩ := h.keyed _ _ _ ((Node.votesShrink_withoutVotes _).found hf)
  simp only [Node.conflictingVotes] at hc
  split_ifs at hc with hreject
  have hreplace : n.voteConflict E x vote = .replace := by
    have hkeep : n.voteConflict E x vote ≠ .reject := fun hr =>
      hreject (List.any_eq_true.2 ⟨x, hheld, by simpa using hr⟩)
    unfold Node.voteConflict at hkeep ⊢
    rw [if_neg hne] at hkeep ⊢
    split_ifs at hkeep ⊢ with _ hother
    · rfl
    · exact absurd hrival (not_or.2 ⟨hother.1, hother.2.1⟩)
    · exact absurd rfl hkeep
  have hmem : x ∈ conflicts := by
    rw [← Except.ok.inj hc]
    exact List.mem_filter.2 ⟨hheld, by simpa using hreplace⟩
  -- a removed vote is found in neither map
  rw [Node.withoutVotes_eq] at hf
  rcases hf with hf | hf
  · exact (VoteMap.lookup_foldl_remove.1 hf).2 x hmem ⟨hk.symm, hv.symm⟩
  · exact (VoteMap.lookup_foldl_remove.1 hf).2 x hmem ⟨hk.symm, hv.symm⟩

/-- A vote is stored after the votes in conflict with it were removed. -/
theorem store (h : VoteInv E n) {vote : ProposalVote} {conflicts : List ProposalVote}
    (hc : n.conflictingVotes E vote = .ok conflicts)
    (hsigner : validateProposalVoteSignatureAndSigner E vote = .ok ()) {m : Node}
    (hfound : ∀ k v x, m.Found k v x → (n.withoutVotes conflicts).Found k v x ∨
      (k = vote.blockHash ∧ v = vote.validatorId ∧ x = vote))
    (heffects : m.effects = n.effects) : VoteInv E (m.recordStored vote) := by
  have hold := h.of_shrink (Node.votesShrink_withoutVotes conflicts)
    (.of_eq (by rw [Node.withoutVotes_eq]))
  have hrival {x : ProposalVote} (hx : x ∈ m.heldVotesOf vote.validatorId)
      (hxv : x.Rivals vote) : x.blockHash = vote.blockHash := by
    obtain ⟨k, hf⟩ := Node.mem_heldVotesOf_iff.1 hx
    rcases hfound k _ x hf with hf | ⟨-, -, rfl⟩
    · exact h.no_rival hc hf hxv
    · rfl
  refine ⟨fun k v x hf => ?_, fun k v x hf => ?_, fun v x hx y hy hxy => ?_, fun p hp => ?_, ?_, ?_⟩
  · rcases hfound k v x hf with hf | ⟨rfl, rfl, rfl⟩
    · exact hold.keyed k v x hf
    · exact ⟨rfl, rfl⟩
  · rcases hfound k v x hf with hf | ⟨-, -, rfl⟩
    · exact hold.signer k v x hf
    · exact hsigner
  · obtain ⟨k, hfx⟩ := Node.mem_heldVotesOf_iff.1 hx
    obtain ⟨k', hfy⟩ := Node.mem_heldVotesOf_iff.1 hy
    rcases hfound k v x hfx with hx' | ⟨-, rfl, rfl⟩
    · rcases hfound k' v y hfy with hy' | ⟨-, rfl, rfl⟩
      · exact hold.unique v x (Node.mem_heldVotesOf_iff.2 ⟨k, hx'⟩) y
          (Node.mem_heldVotesOf_iff.2 ⟨k', hy'⟩) hxy
      · exact hrival hx hxy
    · exact (hrival hy hxy.symm).symm
  · rw [← Prod.mk.eta (p := p), Node.mem_storedVotes] at hp
    rcases List.mem_cons.1 hp with hp | hp
    · simp only [Effect.voteStored.injEq] at hp
      rw [hp.2, Node.rivalVotes, List.filter_eq_nil_iff]
      intro x hx hrivalry
      simp only [Bool.and_eq_true, beq_iff_eq, bne_iff_ne] at hrivalry
      exact hrivalry.2 (hrival hx (.inl hrivalry.1))
    · exact h.alone p (by rw [← Prod.mk.eta (p := p), Node.mem_storedVotes, ← heffects]; exact hp)
  · intro v hv
    rcases List.mem_cons.1 (Node.mem_signedVotes.1 hv) with hv | hv
    · cases hv
    · exact h.own v (Node.mem_signedVotes.2 (heffects ▸ hv))
  · intro v earlier hsuffix
    rcases List.suffix_cons_iff.1 hsuffix with heq | hsuffix
    · cases heq
    · rw [heffects] at hsuffix
      exact h.handedOut v earlier hsuffix

theorem step (h : VoteInv E n) (hstep : Step E A n n') : VoteInv E n' := by
  cases hstep with
  | book hcore =>
    exact h.of_shrink (.of_eq (Node.core_proposalVotes hcore) (Node.core_bufferedVotes hcore))
      (.of_eq (Node.core_effects hcore))
  | emit effect heffect => exact h.emit heffect
  | addTx tx =>
    have hadded : VoteInv E (addTransaction tx n) := h.of_shrink (.of_eq rfl rfl) (.of_eq rfl)
    exact hadded.note (by simp) (by simp) (by simp)
  | drop block =>
    have hdropped : VoteInv E (n.dropFromMempool block.transactions) :=
      h.of_shrink (.of_eq rfl rfl) (.of_eq rfl)
    exact hdropped.note (by simp) (by simp) (by simp)
  | replaceVotes =>
    exact h.of_shrink (Node.votesShrink_withoutVotes _) (.of_eq (by rw [Node.withoutVotes_eq]))
  | storeVote vote block hc _ _ hvalid =>
    obtain ⟨_, hsigner, -⟩ := except_bind_ok.1 hvalid
    refine h.store hc hsigner (fun k v x hf => ?_) (by rw [Node.withoutVotes_eq])
    rcases hf with hf | hf
    · rw [VoteMap.lookup_store] at hf
      split_ifs at hf with hkey
      · exact .inr ⟨hkey.1, hkey.2, (Option.some.inj hf).symm⟩
      · exact .inl (.inl hf)
    · exact .inl (.inr hf)
  | bufferVote vote hc _ _ hsigner =>
    refine h.store hc hsigner (fun k v x hf => ?_) (by rw [Node.withoutVotes_eq])
    rcases hf with hf | hf
    · exact .inl (.inl hf)
    · rw [VoteMap.lookup_store] at hf
      split_ifs at hf with hkey
      · exact .inr ⟨hkey.1, hkey.2, (Option.some.inj hf).symm⟩
      · exact .inl (.inr hf)
  | dropConflicting => exact h.of_shrink (Node.votesShrink_dropConflicting _) (.of_eq rfl)
  | takeBuffered => exact h.of_shrink (Node.votesShrink_takeBuffered _) (.of_eq rfl)
  | prune => exact h.of_shrink (Node.votesShrink_prune _ _) (.of_eq rfl)
  | retainEvidence => exact h.of_shrink (Node.votesShrink_retainEvidence _) (.of_eq rfl)
  | storeReceipt => exact h.of_shrink (.of_eq rfl rfl) (.withReceipt _)
  | commitmentReceipts => exact h.of_shrink (.of_eq rfl rfl) (.withCommitmentReceipts _)
  | extend => exact h.of_shrink (.of_eq rfl rfl) (.extended _ _)
  | adopt => exact h.of_shrink (.of_eq rfl rfl) (.adopted _ _)
  | applySnapshot => exact h.of_shrink (.of_eq rfl rfl) (.snapshotted _ _)
  | applySegment => exact h.of_shrink (.of_eq rfl rfl) (.segmented _ _)
  | _ => exact h.of_shrink (.of_eq rfl rfl) (.of_eq rfl)

end VoteInv

/-- Any event may be handled. -/
abbrev AnyEvent (_ : Node) (_ : Event) : Prop := True

theorem admits_any (n : Node) (event : Event) (_ : AnyEvent n event) :
    Source.Admits {} E n event where

theorem Reachable.voteInv (hn : Reachable E AnyEvent n) : VoteInv E n :=
  hn.invariant admits_any .fresh fun _ _ _ h hstep => h.step hstep

/-- **A node stands by one vote per height at a time.** Every vote it hands to the network was stored
before, next to no vote of its own for another block of that height; and at any time the votes of its
own that it holds name one block per height. -/
theorem votes_handed_out_alone (E : Env) (n : Node) (hn : Reachable E AnyEvent n) :
    (∀ vote earlier, (.broadcast (.proposalVote vote) :: earlier) <:+ n.effects →
      vote.validatorId = E.me ∧ .voteStored vote [] ∈ earlier) ∧
    ∀ x ∈ n.heldVotesOf E.me, ∀ y ∈ n.heldVotesOf E.me,
      x.blockNumber = y.blockNumber → x.blockHash = y.blockHash := by
  have h := hn.voteInv
  refine ⟨fun vote earlier hsuffix => ?_, fun x hx y hy hxy => h.unique E.me x hx y hy (.inl hxy)⟩
  obtain ⟨hown, rivals, hstored⟩ := h.handedOut vote earlier hsuffix
  have hmem : (vote, rivals) ∈ n.storedVotes :=
    Node.mem_storedVotes.2 (hsuffix.mem (List.mem_cons_of_mem _ hstored))
  obtain rfl : rivals = [] := h.alone _ hmem
  exact ⟨hown, hstored⟩

/-- A first block, then a vote for its rival, then the rival itself. -/
def revoteEvents : List Event :=
  [.received 4 (.blockProposal firstBlock), .received 2 (.proposalVote (signedProposalVote 2 rivalBlock)),
    .received 2 (.blockProposal rivalBlock)]

theorem revote_run : (runEvents (sampleEnv 1) 8 revoteEvents (.fresh (sampleEnv 1) (some 1))).map
    (fun n => n.broadcastVotes.map fun vote => (vote.blockNumber, vote.blockHash)) =
      some [(1, rivalBlock.blockHash), (1, firstBlock.blockHash)] := by
  decide +kernel

/-- Node 1 hands out votes for both blocks of height 1, each stored alone. -/
theorem revote_handed_out_alone : ∃ n,
    runEvents (sampleEnv 1) 8 revoteEvents (.fresh (sampleEnv 1) (some 1)) = some n ∧
    n.broadcastVotes.length = 2 ∧
    ∀ vote earlier, (.broadcast (.proposalVote vote) :: earlier) <:+ n.effects →
      vote.validatorId = 1 ∧ .voteStored vote [] ∈ earlier := by
  obtain ⟨n, hn, hvotes⟩ := Option.map_eq_some_iff.1 revote_run
  refine ⟨n, hn, by simpa using congrArg List.length hvotes, ?_⟩
  exact (votes_handed_out_alone (sampleEnv 1) n
    (Reachable.runEvents (.fresh _) (fun _ _ _ => trivial) hn)).1

/-- The votes a `consensus_v2` node hands out can name two blocks of one height. -/
theorem two_blocks_voted_at_one_height : (sampleEnv 1).v2 = true ∧
    ∃ n, Reachable (sampleEnv 1) AnyEvent n ∧ ∃ x ∈ n.broadcastVotes, ∃ y ∈ n.broadcastVotes,
      x.blockNumber = y.blockNumber ∧ x.blockHash ≠ y.blockHash := by
  refine ⟨rfl, ?_⟩
  obtain ⟨n, hn, hvotes⟩ := Option.map_eq_some_iff.1 revote_run
  refine ⟨n, Reachable.runEvents (.fresh _) (fun _ _ _ => trivial) hn, ?_⟩
  obtain ⟨x, rest, hbroadcast, hx, hrest⟩ := List.map_eq_cons_iff.1 hvotes
  obtain ⟨y, _, rfl, hy, -⟩ := List.map_eq_cons_iff.1 hrest
  simp only [Prod.mk.injEq] at hx hy
  refine ⟨x, by simp [hbroadcast], y, by simp [hbroadcast], hx.1.trans hy.1.symm, ?_⟩
  rw [hx.2, hy.2]
  decide +kernel

end Entangrid
