import Entangrid.Node.Proof.Branch
import Entangrid.Node.Proof.Step
import Entangrid.Node.Proof.VoteMap

/-!
# Where the blocks and votes of a node come from

A step keeps every block and vote of the node traced to an arrival or to the node itself
(`Step.covers`): effects are only ever added, adopted chains consist of known blocks, and the vote
maps gain nothing but the vote being stored.
-/

namespace Entangrid

variable {E : Env} {A : Source} {n n' : Node}

namespace Node

theorem withoutVotes_eq (votes : List ProposalVote) :
    n.withoutVotes votes =
      { n with
        proposalVotes := votes.foldl VoteMap.remove n.proposalVotes
        bufferedProposalVotes := votes.foldl VoteMap.remove n.bufferedProposalVotes } := by
  induction votes generalizing n with
  | nil => rfl
  | cons vote rest ih => exact ih

/-! ## Votes that steps remove -/

/-- Every vote of `n'` is one of `n`. -/
def VotesShrink (n n' : Node) : Prop := ∀ h v x,
  (VoteMap.lookup n'.proposalVotes h v = some x → VoteMap.lookup n.proposalVotes h v = some x) ∧
  (VoteMap.lookup n'.bufferedProposalVotes h v = some x →
    VoteMap.lookup n.bufferedProposalVotes h v = some x)

theorem VotesShrink.holds (hs : VotesShrink n n') {vote : ProposalVote} (h : n'.Holds vote) :
    n.Holds vote := by
  obtain ⟨h, v, hl | hl⟩ := h
  · exact ⟨h, v, .inl ((hs h v vote).1 hl)⟩
  · exact ⟨h, v, .inr ((hs h v vote).2 hl)⟩

theorem VotesShrink.of_eq (hp : n'.proposalVotes = n.proposalVotes)
    (hb : n'.bufferedProposalVotes = n.bufferedProposalVotes) : VotesShrink n n' :=
  fun _ _ _ => ⟨fun h => hp ▸ h, fun h => hb ▸ h⟩

theorem votesShrink_withoutVotes (votes : List ProposalVote) :
    VotesShrink n (n.withoutVotes votes) := by
  rw [withoutVotes_eq]
  exact fun h v x =>
    ⟨fun hl => (VoteMap.lookup_foldl_remove.1 hl).1, fun hl => (VoteMap.lookup_foldl_remove.1 hl).1⟩

theorem votesShrink_dropConflicting (vote : ProposalVote) :
    VotesShrink n (n.removeConflictingVotesForCertifiedVote vote) := fun _ _ _ =>
  ⟨fun hl => (VoteMap.lookup_removeConflicting.1 hl).1,
    fun hl => (VoteMap.lookup_removeConflicting.1 hl).1⟩

theorem votesShrink_takeBuffered (blockHash : HashBytes) :
    VotesShrink n { n with bufferedProposalVotes := n.bufferedProposalVotes.erase blockHash } := by
  refine fun h v x => ⟨id, fun hl => ?_⟩
  rw [VoteMap.lookup_erase] at hl
  split_ifs at hl
  exact hl

theorem votesShrink_prune (certifiedHash : HashBytes) (certifiedHeight : Nat) :
    VotesShrink n (n.pruneVotesNotExtendingCertifiedBlock certifiedHash certifiedHeight) :=
  fun _ _ _ => ⟨VoteMap.lookup_of_filter, VoteMap.lookup_of_filter⟩

theorem votesShrink_retainEvidence (applied : List Block) :
    VotesShrink n (n.retainEvidenceFor applied) :=
  fun _ _ _ => ⟨VoteMap.lookup_of_filter, VoteMap.lookup_of_filter⟩

theorem getElem?_addQc (qc : QuorumCertificate) (k : HashBytes) :
    (n.addQc qc).quorumCertificates[k]? =
      if qc.blockHash = k then some qc else n.quorumCertificates[k]? := by
  simp only [addQc, Std.ExtTreeMap.getElem?_insert, Std.compare_eq_iff_eq]

/-- A certificate that is kept was held. -/
theorem getElem?_of_retained {applied : List Block} {k : HashBytes} {qc : QuorumCertificate}
    (h : (n.retainEvidenceFor applied).quorumCertificates[k]? = some qc) :
    n.quorumCertificates[k]? = some qc := by
  rw [retainEvidenceFor, Std.ExtTreeMap.getElem?_filter', Option.filter_eq_some_iff] at h
  exact h.1

theorem addVote_proposalVotes (vote : ProposalVote) :
    (n.addVote vote).proposalVotes = VoteMap.store n.proposalVotes vote := rfl

theorem addBufferedVote_votes (vote : ProposalVote) :
    (n.addBufferedVote vote).bufferedProposalVotes = VoteMap.store n.bufferedProposalVotes vote := rfl

theorem Holds.addVote {vote x : ProposalVote} (h : (n.addVote vote).Holds x) :
    n.Holds x ∨ x = vote := by
  obtain ⟨h, v, hl | hl⟩ := h
  · rw [addVote_proposalVotes, VoteMap.lookup_store] at hl
    split_ifs at hl
    · exact .inr (Option.some.inj hl).symm
    · exact .inl ⟨h, v, .inl hl⟩
  · exact .inl ⟨h, v, .inr hl⟩

theorem Holds.addBufferedVote {vote x : ProposalVote} (h : (n.addBufferedVote vote).Holds x) :
    n.Holds x ∨ x = vote := by
  obtain ⟨h, v, hl | hl⟩ := h
  · exact .inl ⟨h, v, .inl hl⟩
  · rw [addBufferedVote_votes, VoteMap.lookup_store] at hl
    split_ifs at hl
    · exact .inr (Option.some.inj hl).symm
    · exact .inl ⟨h, v, .inr hl⟩

end Node

/-! ## Effects -/

/-- Nothing but storage writes is recorded between two states. -/
def Node.OnlyWrites (n n' : Node) : Prop :=
  ∃ ws : List StorageWrite, n'.effects = ws.map .write ++ n.effects

/-- Persisting receipts appends to the receipt file. -/
theorem ReceiptBook.foldl_persist_effects (book : ReceiptBook) (receipts : List RelayReceipt) :
    ∃ ws : List StorageWrite, (receipts.foldl (ReceiptBook.persist E) book).effects =
      ws.map .write ++ book.effects ∧ ∀ w ∈ ws, w.ofChain = false := by
  induction receipts generalizing book with
  | nil => exact ⟨[], rfl, by simp⟩
  | cons receipt receipts ih =>
    obtain ⟨ws, heq, hws⟩ := ih (book.persist E receipt)
    rw [List.foldl_cons, heq]
    unfold ReceiptBook.persist
    split_ifs
    · exact ⟨ws, rfl, hws⟩
    · exact ⟨ws, rfl, hws⟩
    · refine ⟨ws ++ [.appendReceipt receipt], by simp, fun w hw => ?_⟩
      rcases List.mem_append.1 hw with hw | hw
      · exact hws w hw
      · rw [List.mem_singleton.1 hw]
        rfl

namespace Node

namespace OnlyWrites

theorem of_eq (h : n'.effects = n.effects) : n.OnlyWrites n' := ⟨[], h⟩

theorem mem (h : n.OnlyWrites n') {effect : Effect} (he : effect ∈ n'.effects)
    (hwrite : ∀ w, effect ≠ .write w) : effect ∈ n.effects := by
  obtain ⟨ws, heq⟩ := h
  rw [heq] at he
  rcases List.mem_append.1 he with he | he
  · obtain ⟨w, -, rfl⟩ := List.mem_map.1 he
    exact absurd rfl (hwrite w)
  · exact he

/-- What was recorded before an effect other than a write has not changed. -/
theorem suffix (h : n.OnlyWrites n') {effect : Effect} {earlier : List Effect}
    (he : (effect :: earlier) <:+ n'.effects) (hwrite : ∀ w, effect ≠ .write w) :
    (effect :: earlier) <:+ n.effects := by
  obtain ⟨ws, heq⟩ := h
  rw [heq] at he
  clear heq
  induction ws with
  | nil => exact he
  | cons w ws ih =>
    rcases List.suffix_cons_iff.1 he with heq | he
    · exact absurd (List.cons.inj heq).1 (hwrite w)
    · exact ih he

end OnlyWrites

theorem withCommitmentReceipts_effects (receipts : List RelayReceipt) :
    ∃ ws : List StorageWrite, (n.withCommitmentReceipts E receipts).effects =
      ws.map .write ++ n.effects ∧ ∀ w ∈ ws, w.ofChain = false :=
  ReceiptBook.foldl_persist_effects n.receiptBook receipts

theorem withReceipt_effects (receipt : RelayReceipt) :
    ∃ ws : List StorageWrite, (n.withReceipt E receipt).effects =
      ws.map .write ++ n.effects ∧ ∀ w ∈ ws, w.ofChain = false :=
  ReceiptBook.foldl_persist_effects n.receiptBook [receipt]

theorem adopted_effects (ledger : LedgerState) (chain : List Block) :
    ∃ ws : List StorageWrite, (n.adopted E ledger chain).effects =
      .write (.overwriteQuorumCertificates n.certificates) ::
        .write (.overwriteOrphans (n.withCanonicalChain ledger chain).orphanBlocks) ::
        .write (.overwriteBlocks chain) :: .write (.writeSnapshot ledger.snapshot) ::
        (ws.map .write ++ n.effects) ∧ ∀ w ∈ ws, w.ofChain = false := by
  obtain ⟨ws, heq, hws⟩ := (n.withCanonicalChain ledger chain).withCommitmentReceipts_effects
    (E := E) (chain.flatMap (·.commitmentReceipts))
  refine ⟨ws, ?_, hws⟩
  rw [show n.effects = (n.withCanonicalChain ledger chain).effects from rfl, ← heq]
  rfl

namespace OnlyWrites

theorem withReceipt (receipt : RelayReceipt) : n.OnlyWrites (n.withReceipt E receipt) := by
  obtain ⟨ws, heq, -⟩ := n.withReceipt_effects receipt
  exact ⟨ws, heq⟩

theorem withCommitmentReceipts (receipts : List RelayReceipt) :
    n.OnlyWrites (n.withCommitmentReceipts E receipts) := by
  obtain ⟨ws, heq, -⟩ := n.withCommitmentReceipts_effects receipts
  exact ⟨ws, heq⟩

theorem extended (ledger : LedgerState) (block : Block) : n.OnlyWrites (n.extended ledger block) :=
  ⟨[.writeSnapshot ledger.snapshot, .appendBlock block], rfl⟩

theorem adopted (ledger : LedgerState) (chain : List Block) :
    n.OnlyWrites (n.adopted E ledger chain) := by
  obtain ⟨ws, heq, -⟩ := n.adopted_effects (E := E) ledger chain
  exact ⟨.overwriteQuorumCertificates n.certificates ::
    .overwriteOrphans (n.withCanonicalChain ledger chain).orphanBlocks :: .overwriteBlocks chain ::
    .writeSnapshot ledger.snapshot :: ws, heq⟩

theorem snapshotted (ledger : LedgerState) (chain : ChainSnapshot) :
    n.OnlyWrites (n.snapshotted E ledger chain) :=
  ⟨[.overwriteReceipts chain.receipts, .overwriteOrphans [], .overwriteBlocks chain.blocks,
    .writeSnapshot ledger.snapshot], rfl⟩

theorem segmented (ledger : LedgerState) (blocks : List Block) :
    n.OnlyWrites (n.segmented E ledger blocks) :=
  ⟨[.overwriteOrphans [], .overwriteBlocks blocks, .writeSnapshot ledger.snapshot], rfl⟩

end OnlyWrites

end Node

/-- A step records effects with their guards, effects that go with an update, or writes. -/
theorem Step.effects_cases (h : Step E A n n') : n.OnlyWrites n' ∨
    ∃ effect, n'.effects = effect :: n.effects ∧
      (EffectOk E A n effect ∨ effect.Bundled A n') := by
  cases h with
  | book h => exact .inl (.of_eq (Node.core_effects h))
  | emit effect heffect => exact .inr ⟨effect, rfl, .inl heffect⟩
  | storeReceipt => exact .inl (.withReceipt _)
  | commitmentReceipts => exact .inl (.withCommitmentReceipts _)
  | replaceVotes => exact .inl (.of_eq (by rw [Node.withoutVotes_eq]))
  | storeVote vote | bufferVote vote =>
    rw [Node.withoutVotes_eq]
    exact .inr ⟨_, rfl, .inr trivial⟩
  | addTx tx _ _ hsource =>
    exact .inr ⟨_, rfl, .inr ⟨hsource, Std.ExtTreeMap.getElem?_insert_self⟩⟩
  | drop => exact .inr ⟨_, rfl, .inr trivial⟩
  | extend => exact .inl (.extended _ _)
  | adopt => exact .inl (.adopted _ _)
  | applySnapshot => exact .inl (.snapshotted _ _)
  | applySegment => exact .inl (.segmented _ _)
  | _ => exact .inl (.of_eq rfl)

/-- No transaction is admitted between two states. -/
def Node.AdmitsNothing (n n' : Node) : Prop :=
  ∃ new, n'.effects = new ++ n.effects ∧ ∀ tx, .transactionAdmitted tx ∉ new

theorem Node.AdmitsNothing.trans {n₁ n₂ n₃ : Node} (h : n₁.AdmitsNothing n₂)
    (h' : n₂.AdmitsNothing n₃) : n₁.AdmitsNothing n₃ := by
  obtain ⟨new, heq, hnew⟩ := h
  obtain ⟨new', heq', hnew'⟩ := h'
  refine ⟨new' ++ new, by rw [heq', heq, List.append_assoc], fun tx hmem => ?_⟩
  exact (List.mem_append.1 hmem).elim (hnew' tx) (hnew tx)

theorem Node.OnlyWrites.admitsNothing (h : n.OnlyWrites n') : n.AdmitsNothing n' := by
  obtain ⟨ws, heq⟩ := h
  exact ⟨_, heq, by simp⟩

/-- Where no transaction may be admitted, none is. -/
theorem Step.admitsNothing (h : Step E A n n') (hA : A.transactions = ∅) : n.AdmitsNothing n' := by
  rcases h.effects_cases with hwrites | ⟨effect, heq, hguard⟩
  · exact hwrites.admitsNothing
  · refine ⟨[effect], heq, fun tx hmem => ?_⟩
    obtain rfl := List.mem_singleton.1 hmem
    rcases hguard with hguard | hguard
    · exact hguard
    · exact Set.notMem_empty tx (hA ▸ hguard.1)

theorem Steps.admitsNothing (h : Steps E A n n') (hA : A.transactions = ∅) : n.AdmitsNothing n' := by
  induction h with
  | refl => exact ⟨[], rfl, by simp⟩
  | tail _ hstep ih => exact ih.trans (hstep.admitsNothing hA)

/-- The same source, closed to transactions and new blocks. -/
def Source.closed (A : Source) : Source := { A with transactions := ∅, takesBlocks := False }

theorem Source.Covers.closed (h : A.Covers n) : A.closed.Covers n :=
  ⟨h.blocks, h.taken, h.votes, h.certificates⟩

/-- The same source, closed to appended blocks. -/
def Source.still (A : Source) : Source := { A with appends := False }

theorem Source.Covers.still (h : A.Covers n) : A.still.Covers n :=
  ⟨h.blocks, h.taken, h.votes, h.certificates⟩

/-- What is done without appending may be done. -/
theorem Step.of_still (h : Step E A.still n n') : Step E A n n' := by
  have hblock {n : Node} {block : Block} (h : A.still.Block n block) : A.Block n block :=
    ⟨h.takes, h.source⟩
  have hcarries {blocks : List Block} (h : A.still.Carries blocks) : A.Carries blocks :=
    ⟨h.takes, h.carried⟩
  cases h with
  | book h hrecords => exact .book h hrecords
  | emit effect h => exact .emit effect (by cases effect <;> exact h)
  | readClock => exact .readClock
  | enterSlot slot h => exact .enterSlot slot h
  | recordPeer h => exact .recordPeer h
  | storeReceipt receipt h => exact .storeReceipt receipt h
  | commitmentReceipts block h => exact .commitmentReceipts block h
  | attest a h => exact .attest a h
  | aggregate a h => exact .aggregate a h
  | addTx tx hnew hvalid hsource => exact .addTx tx hnew hvalid hsource
  | drop block new old h hnew => exact .drop block new old h hnew
  | replaceVotes vote h => exact .replaceVotes vote h
  | storeVote vote block h hnew hknown hvalid hsource =>
    exact .storeVote vote block h hnew hknown hvalid hsource
  | bufferVote vote h hnew hunknown hvalid hpolicy hsource =>
    exact .bufferVote vote h hnew hunknown hvalid hpolicy hsource
  | dropConflicting vote => exact .dropConflicting vote
  | takeBuffered blockHash => exact .takeBuffered blockHash
  | prune h k => exact .prune h k
  | retainEvidence applied h => exact .retainEvidence applied h
  | buildQc qc hnew h => exact .buildQc qc hnew h
  | importQc qc block hnew hknown hvalid hsource =>
    exact .importQc qc block hnew hknown hvalid hsource
  | addOrphan block hnew hvalid hsource => exact .addOrphan block hnew hvalid (hblock hsource)
  | addPending block hnew hvalid hsource hchild =>
    exact .addPending block hnew hvalid (hblock hsource) hchild
  | takeOrphan index => exact .takeOrphan index
  | extend _ _ _ _ _ _ _ happends => exact happends.elim
  | adopt hsource hreplay =>
    refine .adopt ?_ hreplay
    cases hsource with
    | certified tip h => exact .certified tip h
    | betterChild h => exact .betterChild h
    | voteSupported tip h => exact .voteSupported tip h
    | competing hvalid hsource hhead hv2 h hbetter =>
      exact .competing hvalid (hblock hsource) hhead hv2 h hbetter
    | sync hoffered hsource hlen hblocks hadopt =>
      exact .sync hoffered (hcarries hsource) hlen hblocks hadopt
  | applySnapshot hoffered hsource hvalid hadopt =>
    exact .applySnapshot hoffered (hcarries hsource) hvalid hadopt
  | applySegment hsource hbase hreplay hblocks =>
    exact .applySegment (hcarries hsource) hbase hreplay hblocks

theorem Steps.of_still (h : Steps E A.still n n') : Steps E A n n' :=
  Relation.ReflTransGen.mono (fun _ _ hstep => Step.of_still hstep) _ _ h

/-- Where everything may arrive, everything is traced. -/
theorem Source.covers_of_univ (hblocks : A.blocks = Set.univ) (hvotes : A.votes = Set.univ)
    (n : Node) : A.Covers n where
  blocks _ _ := .inl (hblocks ▸ trivial)
  taken _ _ := .inl (hblocks ▸ trivial)
  votes _ _ := .inl (hvotes ▸ trivial)
  certificates _ _ _ _ _ := .inl (hvotes ▸ trivial)

/-- Everything may arrive but blocks. -/
def blockless : Source := { takesBlocks := False }

theorem blockless_covers : blockless.Covers n := Source.covers_of_univ rfl rfl n

theorem Step.effects_suffix (h : Step E A n n') : n.effects <:+ n'.effects := by
  rcases h.effects_cases with ⟨ws, heq⟩ | ⟨effect, heq, -⟩
  · exact heq ▸ List.suffix_append _ _
  · exact heq ▸ List.suffix_cons _ _

theorem Steps.effects_suffix (h : Steps E A n n') : n.effects <:+ n'.effects := by
  induction h with
  | refl => exact List.suffix_refl _
  | tail _ hstep ih => exact ih.trans hstep.effects_suffix

/-- A new effect that is neither a write nor goes with an update was recorded with its guard. -/
theorem Step.effect_new (h : Step E A n n') {effect : Effect} (he : effect ∈ n'.effects)
    (hwrite : ∀ w, effect ≠ .write w) (hbundled : ¬effect.Bundled A n') :
    effect ∈ n.effects ∨ EffectOk E A n effect := by
  rcases h.effects_cases with hwrites | ⟨e, heq, hguard⟩
  · exact .inl (hwrites.mem he hwrite)
  · rw [heq] at he
    rcases List.mem_cons.1 he with rfl | he
    · exact .inr (hguard.resolve_right hbundled)
    · exact .inl he

section Mono
variable (he : n.effects <:+ n'.effects)
include he

theorem Source.Block.mono {block : Entangrid.Block} (h : A.Block n block) : A.Block n' block where
  takes := h.takes
  source := h.source.imp_right <|
    Or.imp (fun hb => (he.filterMap _).mem hb) fun hb => (he.filterMap _).mem hb

theorem Source.Arrived.mono {block : Entangrid.Block} (h : A.Arrived n block) :
    A.Arrived n' block :=
  h.imp_right <| Or.imp_right fun hb => (he.filterMap _).mem hb

theorem Source.Vote.mono {vote : ProposalVote} (h : A.Vote n vote) : A.Vote n' vote :=
  h.imp_right fun hv => (he.filterMap _).mem hv

end Mono

/-- A block offered to a node whose blocks are traced arrived or was built by the node. -/
theorem Source.Block.arrived {block : Entangrid.Block} (h : A.Block n block) (hc : A.Covers n) :
    A.Arrived n block := by
  rcases h.source with h | h | h
  · exact .inl h
  · exact .inr (.inr h)
  · exact hc.taken block h

/-! ## Chains -/

theorem competingChain_eq_some {block : Block} {chain : List Block}
    (h : competingChain E n block = .ok (some chain)) : ∃ parentChain ledger ledger',
      n.buildParentChainForBlock block = some parentChain ∧ containsLockedQc n parentChain = true ∧
      LedgerState.replayBlocks E.hashing E.crypto E.genesis parentChain = .ok ledger ∧
      ledger.applyBlock E.hashing E.crypto block = .ok ledger' ∧ chain = parentChain ++ [block] := by
  unfold competingChain at h
  split at h
  · simp at h
  · next parentChain hparent =>
    split_ifs at h with hlocked
    · simp at h
    · obtain ⟨ledger, hledger, h⟩ := except_bind_ok.1 h
      obtain ⟨ledger', hledger', h⟩ := except_bind_ok.1 h
      refine ⟨parentChain, ledger, ledger', hparent, by simpa using hlocked, hledger, hledger', ?_⟩
      simpa using h.symm

theorem certifiedBranchCandidate_eq_some {tipHash : HashBytes} {chain : List Block}
    (h : certifiedBranchCandidate E n tipHash = some chain) :
    n.buildChainToTip tipHash = some chain ∧ n.compareBranchQuality E chain n.blocks = .gt := by
  unfold certifiedBranchCandidate at h
  obtain ⟨chain', hchain, h⟩ := Option.bind_eq_some_iff.1 h
  split_ifs at h with _ _ hgt
  obtain rfl := Option.some.inj h
  exact ⟨hchain, by simpa using hgt⟩

theorem voteSupportedCandidate_eq_some {tipHash : HashBytes} {chain : List Block}
    (h : voteSupportedCandidate E n tipHash = some chain) :
    n.certifiedHeadOnlyActive E = false ∧ E.v2 = true ∧ n.buildChainToTip tipHash = some chain ∧
      containsLockedQc n chain = true ∧ n.compareBranchQuality E chain n.blocks = .gt := by
  unfold voteSupportedCandidate at h
  split_ifs at h with hactive
  obtain ⟨chain', hchain, h⟩ := Option.bind_eq_some_iff.1 h
  split_ifs at h with hlocked hgt
  obtain rfl := Option.some.inj h
  simp only [Bool.or_eq_true, Bool.not_eq_true', not_or, Bool.not_eq_true, Bool.not_eq_false]
    at hactive
  exact ⟨hactive.2, hactive.1, hchain, by simpa using hlocked, by simpa using hgt⟩

theorem betterUncertifiedChild_eq_some {child : Block} {chain : List Block}
    (h : betterUncertifiedChild n = some (child, chain)) :
    n.bestKnownUncertifiedChildForCertifiedHead = some child ∧
      n.buildChainToTip child.blockHash = some chain := by
  simp only [betterUncertifiedChild] at h
  split_ifs at h
  obtain ⟨best, hbest, h⟩ := Option.bind_eq_some_iff.1 h
  split_ifs at h
  obtain ⟨chain', hchain, h⟩ := Option.bind_eq_some_iff.1 h
  simp only [Option.some.injEq, Prod.mk.injEq] at h
  obtain ⟨rfl, rfl⟩ := h
  exact ⟨hbest, hchain⟩

/-- A block of a chain that sync validated: from genesis, or on a part of the local chain. -/
def Validated (E : Env) (A : Source) (n : Node) (block : Block) : Prop :=
  ∃ (base suffix : List Block) (start : HashBytes) (ledger ledger' : LedgerState),
    ((base = [] ∧ start = empty_hash) ∨ SegmentBase E n base start) ∧
    LedgerState.replayBlocks E.hashing E.crypto E.genesis base = .ok ledger ∧
    validateSnapshotBlocks E ledger start suffix = .ok ledger' ∧
    (∀ b ∈ suffix, b ∈ n.blocks ∨ b ∈ A.carried) ∧ block ∈ suffix

/-- A block that was not known: offered and accepted, or carried and validated. -/
def Source.New (E : Env) (A : Source) (n : Node) (block : Entangrid.Block) : Prop :=
  (A.Block n block ∧ validateReceivedBlock E block = .ok ()) ∨
    (A.Carries [block] ∧ Validated E A n block)

theorem Source.New.arrived {block : Entangrid.Block} (h : A.New E n block) (hc : A.Covers n) :
    A.Arrived n block :=
  h.elim (fun h => h.1.arrived hc) fun h => .inr (.inl (h.1.carried block List.mem_cons_self))

theorem Source.Carries.block {blocks : List Entangrid.Block} {block : Entangrid.Block}
    (h : A.Carries blocks) (hb : block ∈ blocks) : A.Carries [block] :=
  ⟨h.takes, fun _ hmem => List.mem_singleton.1 hmem ▸ h.carried block hb⟩

theorem Source.New.takes {block : Entangrid.Block} (h : A.New E n block) : A.takesBlocks :=
  h.elim (fun h => h.1.takes) fun h => h.1.takes

theorem ChainSource.block {chain : List Block} (h : ChainSource E A n chain) {block : Block}
    (hb : block ∈ chain) : block ∈ n.knownBlocks ∨ A.New E n block := by
  cases h with
  | certified tipHash h =>
    exact .inl (Node.buildChainToTip_known (certifiedBranchCandidate_eq_some h).1 hb)
  | betterChild h =>
    exact .inl (Node.buildChainToTip_known (betterUncertifiedChild_eq_some h).2 hb)
  | voteSupported tipHash h =>
    exact .inl (Node.buildChainToTip_known (voteSupportedCandidate_eq_some h).2.2.1 hb)
  | competing hvalid hsource _ _ h =>
    obtain ⟨parentChain, -, -, hparent, -, -, -, rfl⟩ := competingChain_eq_some h
    rcases List.mem_append.1 hb with hb | hb
    · exact .inl (Node.buildParentChainForBlock_known hparent hb)
    · obtain rfl := List.mem_singleton.1 hb
      exact .inr (.inl ⟨hsource, hvalid⟩)
  | sync _ hsource _ hblocks =>
    rcases List.mem_append.1 hb with hb' | hb'
    · exact .inl (Node.mem_knownBlocks.2 (.inl (List.mem_of_mem_take hb')))
    · refine .inr (.inr ⟨hsource.block hb', [], _, _, _, _, .inl ⟨rfl, rfl⟩, rfl, hblocks,
        fun b hb => ?_, hb⟩)
      exact (List.mem_append.1 hb).imp List.mem_of_mem_take (hsource.carried b)

theorem SegmentBase.block {base : List Block} {baseTip : HashBytes}
    (h : SegmentBase E n base baseTip) {block : Block} (hb : block ∈ base) : block ∈ n.blocks := by
  cases h with
  | whole => exact hb
  | certified => exact List.mem_of_mem_take hb

/-! ## Steps -/

/-- A valid snapshot has validated blocks, and its ledger is theirs. -/
theorem validateChainSnapshot_blocks {chain : ChainSnapshot} {ledger : LedgerState}
    (h : validateChainSnapshot E chain = .ok ledger) :
    validateSnapshotReceipts E chain.receipts [] [] = .ok () ∧
      validateSnapshotBlocks E (.fromGenesis E.genesis) empty_hash chain.blocks = .ok ledger ∧
      ledger.snapshot = chain.snapshot := by
  obtain ⟨_, hreceipts, h⟩ := except_bind_ok.1 h
  obtain ⟨ledger', hblocks, h⟩ := except_bind_ok.1 h
  obtain ⟨_, hsame, h⟩ := except_bind_ok.1 h
  obtain rfl := Except.ok.inj h
  exact ⟨hreceipts, hblocks, by simpa [rejectIf_ok] using hsame⟩

/-- The blocks after a step are known before it or arrive with it. -/
theorem Step.knownBlocks (h : Step E A n n') {block : Block} (hb : block ∈ n'.knownBlocks) :
    block ∈ n.knownBlocks ∨ A.New E n block := by
  cases h with
  | book h =>
    refine .inl ?_
    rw [Node.mem_knownBlocks] at hb ⊢
    rwa [← Node.core_blocks h, ← Node.core_orphanBlocks h, ← Node.core_pending h]
  | replaceVotes | storeVote | bufferVote =>
    rw [Node.withoutVotes_eq] at hb
    exact .inl hb
  | addOrphan b _ hvalid hsource =>
    simp only [Node.mem_knownBlocks, Node.addOrphan, List.mem_append, List.mem_singleton] at hb ⊢
    obtain hb | hb | hb | rfl := hb
    · exact .inl (.inl hb)
    · exact .inl (.inr (.inl hb))
    · exact .inl (.inr (.inr hb))
    · exact .inr (.inl ⟨hsource, hvalid⟩)
  | addPending b _ hvalid hsource =>
    simp only [Node.mem_knownBlocks, Node.addPendingChild, List.mem_append, List.mem_singleton]
      at hb ⊢
    obtain hb | (hb | rfl) | hb := hb
    · exact .inl (.inl hb)
    · exact .inl (.inr (.inl hb))
    · exact .inr (.inl ⟨hsource, hvalid⟩)
    · exact .inl (.inr (.inr hb))
  | takeOrphan index =>
    simp only [Node.mem_knownBlocks] at hb ⊢
    exact .inl (hb.imp_right (Or.imp_right List.mem_of_mem_eraseIdx))
  | @extend b ledger _ hvalid hsource =>
    have hb : block ∈ (n.extendedBy ledger b).knownBlocks := hb
    simp only [Node.mem_knownBlocks, Node.extendedBy, List.mem_append, List.mem_singleton] at hb ⊢
    obtain (hb | rfl) | hb := hb
    · exact .inl (.inl hb)
    · exact .inr (.inl ⟨hsource, hvalid⟩)
    · exact .inl (.inr hb)
  | @adopt chain ledger hsource =>
    have hb : block ∈ (n.withCanonicalChain ledger chain).knownBlocks := hb
    simp only [Node.mem_knownBlocks, Node.withCanonicalChain, List.mem_filter, List.mem_append,
      List.not_mem_nil, false_or] at hb
    rcases hb with hb | ⟨(hb | hb) | hb, -⟩
    · exact hsource.block hb
    · exact .inl (Node.mem_knownBlocks.2 (.inl hb))
    · exact .inl (Node.mem_knownBlocks.2 (.inr (.inr hb)))
    · exact .inl (Node.mem_knownBlocks.2 (.inr (.inl hb)))
  | @applySnapshot chain ledger _ hsource hvalid =>
    have hb : block ∈ (n.withSnapshot ledger chain).knownBlocks := hb
    simp only [Node.mem_knownBlocks, Node.withSnapshot, List.not_mem_nil, or_false] at hb
    obtain ⟨-, hblocks, -⟩ := validateChainSnapshot_blocks hvalid
    exact .inr (.inr ⟨hsource.block hb, [], _, _, _, _, .inl ⟨rfl, rfl⟩, rfl, hblocks,
      fun b hb => .inr (hsource.carried b hb), hb⟩)
  | @applySegment base blocks _ _ ledger hsource hbase hreplay hblocks =>
    have hb : block ∈ (n.withSegment ledger (base ++ blocks)).knownBlocks := hb
    simp only [Node.mem_knownBlocks, Node.withSegment, List.not_mem_nil, or_false,
      List.mem_append] at hb
    rcases hb with hb | hb
    · exact .inl (Node.mem_knownBlocks.2 (.inl (hbase.block hb)))
    · exact .inr (.inr ⟨hsource.block hb, base, _, _, _, _, .inr hbase, hreplay, hblocks,
        fun b hb => .inr (hsource.carried b hb), hb⟩)
  | _ => exact .inl hb

/-- Where the node takes no blocks, it has none that it did not have before. -/
theorem Steps.knownBlocks (h : Steps E A n n') (hA : ¬A.takesBlocks) {block : Block}
    (hb : block ∈ n'.knownBlocks) : block ∈ n.knownBlocks := by
  induction h with
  | refl => exact hb
  | tail _ hstep ih =>
    rcases hstep.knownBlocks hb with hb | hnew
    · exact ih hb
    · exact absurd hnew.takes hA

/-- The votes after a step are held before it, or arrive with it and are checked. -/
theorem Step.vote_cases (h : Step E A n n') {vote : ProposalVote} (hv : n'.Holds vote) :
    n.Holds vote ∨ A.Vote n vote ∧ validateProposalVoteSignatureAndSigner E vote = .ok () ∧
      validateHybridProposalVotePolicy E vote = .ok () := by
  cases h with
  | book h =>
    exact .inl ((Node.VotesShrink.of_eq (Node.core_proposalVotes h)
      (Node.core_bufferedVotes h)).holds hv)
  | replaceVotes => exact .inl ((Node.votesShrink_withoutVotes _).holds hv)
  | storeVote new _ _ _ _ hvalid hsource =>
    rcases hv.addVote with hv | rfl
    · exact .inl ((Node.votesShrink_withoutVotes _).holds hv)
    · obtain ⟨_, hsigner, hvalid⟩ := except_bind_ok.1 hvalid
      obtain ⟨_, hpolicy, -⟩ := except_bind_ok.1 hvalid
      exact .inr ⟨hsource, hsigner, hpolicy⟩
  | bufferVote new _ _ _ hsigner hpolicy hsource =>
    rcases hv.addBufferedVote with hv | rfl
    · exact .inl ((Node.votesShrink_withoutVotes _).holds hv)
    · exact .inr ⟨hsource, hsigner, hpolicy⟩
  | dropConflicting => exact .inl ((Node.votesShrink_dropConflicting _).holds hv)
  | takeBuffered => exact .inl ((Node.votesShrink_takeBuffered _).holds hv)
  | prune => exact .inl ((Node.votesShrink_prune _ _).holds hv)
  | retainEvidence => exact .inl ((Node.votesShrink_retainEvidence _).holds hv)
  | _ => exact .inl hv

theorem Step.holds (h : Step E A n n') {vote : ProposalVote} (hv : n'.Holds vote) :
    n.Holds vote ∨ A.Vote n vote := (h.vote_cases hv).imp_right And.left

/-- What a certificate is assembled from. -/
theorem assembledQc_eq_some {blockHash : HashBytes} {qc : QuorumCertificate}
    (h : assembledQc E n blockHash = some qc) : ∃ block byValidator,
      n.knownBlock blockHash = some block ∧ n.proposalVotes[blockHash]? = some byValidator ∧
      quorumCertificateThreshold E.genesis.validators.length ≤ byValidator.size ∧
      qc = { blockHash, blockNumber := block.header.blockNumber, epoch := block.header.epoch
             slot := block.header.slot
             voteRoot := quorumCertificateVoteRoot E.hashing (byValidator.toList.map (·.2))
             votes := byValidator.toList.map (·.2) } := by
  unfold assembledQc at h
  obtain ⟨block, hblock, h⟩ := Option.bind_eq_some_iff.1 h
  obtain ⟨byValidator, hvotes, h⟩ := Option.bind_eq_some_iff.1 h
  split_ifs at h with hsize
  exact ⟨block, byValidator, hblock, hvotes, by omega, (Option.some.inj h).symm⟩

theorem assembledQc_holds {blockHash : HashBytes} {qc : QuorumCertificate}
    (h : assembledQc E n blockHash = some qc) {vote : ProposalVote} (hvote : vote ∈ qc.votes) :
    n.Holds vote := by
  obtain ⟨block, byValidator, -, hvotes, -, rfl⟩ := assembledQc_eq_some h
  obtain ⟨v, hv⟩ : ∃ v, byValidator[v]? = some vote := by
    simpa [Std.ExtTreeMap.mem_toList_iff_getElem?_eq_some] using hvote
  exact ⟨blockHash, v, .inl (VoteMap.lookup_eq_some_iff.2 ⟨byValidator, hvotes, hv⟩)⟩

/-- A certificate a step adds: put together from the stored votes, or imported after its check. -/
def NewCertificate (E : Env) (A : Source) (n : Node) (qc : QuorumCertificate) : Prop :=
  assembledQc E n qc.blockHash = some qc ∨ ∃ block, n.knownBlock qc.blockHash = some block ∧
    validateQuorumCertificateForBlock E qc block = .ok () ∧ ∀ vote ∈ qc.votes, A.Vote n vote

/-- A certificate after a step was there before, or lies under its block and is new. -/
theorem Step.certificate_cases (h : Step E A n n') {k : HashBytes} {qc : QuorumCertificate}
    (hq : n'.quorumCertificates[k]? = some qc) :
    n.quorumCertificates[k]? = some qc ∨ (qc.blockHash = k ∧ NewCertificate E A n qc) := by
  have hadd {new : QuorumCertificate} (hnew : NewCertificate E A n new)
      (hq : (n.addQc new).quorumCertificates[k]? = some qc) :
      n.quorumCertificates[k]? = some qc ∨ (qc.blockHash = k ∧ NewCertificate E A n qc) := by
    rw [Node.getElem?_addQc] at hq
    split_ifs at hq with hkey
    · obtain rfl := Option.some.inj hq
      exact .inr ⟨hkey, hnew⟩
    · exact .inl hq
  cases h with
  | book h => exact .inl (Node.core_certificates h ▸ hq)
  | replaceVotes | storeVote | bufferVote =>
    rw [Node.withoutVotes_eq] at hq
    exact .inl hq
  | buildQc new _ h => exact hadd (.inl h) hq
  | importQc new block _ hknown hvalid hsource => exact hadd (.inr ⟨block, hknown, hvalid, hsource⟩) hq
  | retainEvidence => exact .inl (Node.getElem?_of_retained hq)
  | _ => exact .inl hq

/-- A certificate after a step was there before, or lies under its block and is made of known votes. -/
theorem Step.certificates (h : Step E A n n') {k : HashBytes} {qc : QuorumCertificate}
    (hq : n'.quorumCertificates[k]? = some qc) : n.quorumCertificates[k]? = some qc ∨
      (qc.blockHash = k ∧ ∀ vote ∈ qc.votes, n.Holds vote ∨ A.Vote n vote) := by
  rcases h.certificate_cases hq with hold | ⟨hkey, hbuilt | ⟨block, -, -, hsource⟩⟩
  · exact .inl hold
  · exact .inr ⟨hkey, fun vote hvote => .inl (assembledQc_holds hbuilt hvote)⟩
  · exact .inr ⟨hkey, fun vote hvote => .inr (hsource vote hvote)⟩

theorem Step.covers (h : Step E A n n') (hc : A.Covers n) : A.Covers n' where
  blocks block hb := by
    refine Source.Arrived.mono h.effects_suffix ?_
    rcases h.knownBlocks hb with hb | hb
    · exact hc.blocks block hb
    · exact hb.arrived hc
  taken block hb := by
    refine Source.Arrived.mono h.effects_suffix ?_
    rcases h.effect_new (Node.mem_takenOrphans.1 hb) (by simp) (by simp) with hold | hguard
    · exact hc.taken block (Node.mem_takenOrphans.2 hold)
    · exact hc.blocks block (Node.mem_knownBlocks.2 (.inr (.inr hguard)))
  votes vote hv := Source.Vote.mono h.effects_suffix ((h.holds hv).elim (hc.votes vote) id)
  certificates k qc hqc vote hvote := by
    refine Source.Vote.mono h.effects_suffix ?_
    rcases h.certificates hqc with hold | ⟨-, hnew⟩
    · exact hc.certificates k qc hold vote hvote
    · exact (hnew vote hvote).elim (hc.votes vote) id

theorem Steps.covers (h : Steps E A n n') (hc : A.Covers n) : A.Covers n' := by
  induction h with
  | refl => exact hc
  | tail _ hstep ih => exact hstep.covers ih

end Entangrid
