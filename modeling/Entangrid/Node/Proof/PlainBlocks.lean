import Entangrid.Node.Proof.Extension
import Entangrid.Node.Proof.Resting

/-!
# Blocks at a node without `consensus_v2`

Such a node has no votes to import and none to cast, so what it does with a block that passes the first
checks depends on the parent alone: a child of the tip becomes the tip, any other block becomes an
orphan.

* `acceptBlock_extends`, `acceptBlock_waits`: the two outcomes, with the ledger and the lists of blocks
  after them.
* `promoteOrphan_extends`: an orphan that continues the chain is taken out and becomes the tip.
-/

namespace Entangrid

open Proc (Ends)

section
variable {E : Env} {n n' : Node} {ledger next : LedgerState} {shelves : Shelves} {block : Block}
  {errs : Error → Prop}

/-- A node without votes, with this ledger and these lists of blocks. -/
structure Placed (ledger : LedgerState) (shelves : Shelves) (n : Node) : Prop where
  ledger : n.ledger = ledger
  shelves : n.shelves = shelves
  inert : Inert n

/-- All blocks on the shelves. -/
def Shelves.knownBlocks (shelves : Shelves) : List Block :=
  shelves.blocks ++ shelves.pendingCertifiedChildren ++ shelves.orphanBlocks

/-- The shelves without one orphan. -/
def Shelves.withoutOrphan (shelves : Shelves) (index : Nat) : Shelves :=
  { shelves with orphanBlocks := shelves.orphanBlocks.eraseIdx index }

def Shelves.extended (shelves : Shelves) (block : Block) : Shelves :=
  { shelves with blocks := shelves.blocks ++ [block] }

def Shelves.addOrphan (shelves : Shelves) (block : Block) : Shelves :=
  { shelves with orphanBlocks := shelves.orphanBlocks ++ [block] }

/-- What only looks at the footing survives sends. -/
theorem Sends.of_footing {p : Node → Prop} (hp : ∀ n n', n'.footing = n.footing → p n → p n') :
    Sends E p fun _ => True where
  effect _ _ := hp _ _ rfl
  pushed _ _ _ := hp _ _ rfl
  exports _ _ _ _ := trivial

/-! ## Without certificates -/

/-- Without a certificate there is nothing to finalize. -/
theorem run_maybeFinalizeQuorumCertificate_of_none {blockHash : HashBytes}
    (hbuild : (maybeBuildQc E blockHash).run n = .ok none n) (fuel : Nat) :
    (maybeFinalizeQuorumCertificate E fuel blockHash).run n = .ok none n := by
  unfold maybeFinalizeQuorumCertificate maybeFinalizeQuorumCertificateWith
  rw [Proc.run_get_bind, Proc.run_bind_of_ok hbuild]
  rfl

namespace Inert

variable (h : Inert n)
include h

theorem highestLockedQcHash : n.highestLockedQcHash = none := by
  simp [Node.highestLockedQcHash, h.hasQc]

theorem certifiedHeadOnlyActive : n.certifiedHeadOnlyActive E = false := by
  simp [Node.certifiedHeadOnlyActive, h.highestLockedQcHash]

theorem isDirectChild : n.isDirectChildOfCurrentCertifiedHead block = false := by
  simp [Node.isDirectChildOfCurrentCertifiedHead, Node.currentCertifiedHead, h.highestLockedQcHash]

/-- No certificate is built. -/
theorem run_maybeBuildQc (hvalidators : E.genesis.validators ≠ []) (blockHash : HashBytes) :
    (maybeBuildQc E blockHash).run n = .ok none n := by
  unfold maybeBuildQc
  rw [Proc.run_get_bind, h.certificates]
  cases hqc : assembledQc E n blockHash with
  | none => rfl
  | some qc =>
    obtain rfl := assembledQc_blockHash hqc
    obtain ⟨vote, hvote⟩ := List.exists_mem_of_length_pos
      (length_votes_pos_of_assembled hvalidators hqc)
    exact absurd (assembledQc_holds hqc hvote) (h.votes vote)

theorem run_maybeFinalizeQuorumCertificate (hvalidators : E.genesis.validators ≠ []) (fuel : Nat)
    (blockHash : HashBytes) :
    (maybeFinalizeQuorumCertificate E fuel blockHash).run n = .ok none n :=
  run_maybeFinalizeQuorumCertificate_of_none (h.run_maybeBuildQc hvalidators blockHash) fuel

/-- An entry for buffered votes is empty. -/
theorem buffered_nil {blockHash : HashBytes} {byValidator : BTreeMap ValidatorId ProposalVote}
    (hfound : n.bufferedProposalVotes[blockHash]? = some byValidator) :
    byValidator.toList.map (·.2) = [] := by
  rw [List.eq_nil_iff_forall_not_mem]
  intro vote hvote
  obtain ⟨v, hv⟩ := Std.ExtTreeMap.mem_values.1 hvote
  exact h.votes vote ⟨blockHash, v, .inr (VoteMap.lookup_eq_some_iff.2 ⟨byValidator, hfound, hv⟩)⟩

theorem takeBuffered (blockHash : HashBytes) :
    Inert { n with bufferedProposalVotes := n.bufferedProposalVotes.erase blockHash } where
  votes vote hheld := by
    obtain ⟨b, v, hv | hv⟩ := hheld
    · exact h.votes vote ⟨b, v, .inl hv⟩
    · rw [VoteMap.lookup_erase] at hv
      split_ifs at hv
      exact h.votes vote ⟨b, v, .inr hv⟩
  certificates := h.certificates

end Inert

/-- No vote is cast. -/
theorem castVote_plain (hv1 : E.v2 = false) (fuel : Nat) (block : Block) :
    maybeBroadcastLocalProposalVote E (fuel + 1) block = pure () := by
  show maybeBroadcastLocalProposalVoteWith E _ block = pure ()
  unfold maybeBroadcastLocalProposalVoteWith
  rw [hv1]
  rfl

namespace Placed

variable (h : Placed ledger shelves n)

theorem of_node (h : Inert n) : Placed n.ledger n.shelves n := ⟨rfl, rfl, h⟩

theorem keep (h : Placed ledger shelves n) (hfooting : n'.footing = n.footing) :
    Placed ledger shelves n' where
  ledger := (Node.footing_ledger hfooting).trans h.ledger
  shelves := (Node.footing_shelves hfooting).trans h.shelves
  inert := h.inert.of_ballots (congrArg Footing.ballots hfooting)

theorem sends : Sends E (Placed ledger shelves) fun _ => True :=
  .of_footing fun _ _ hfooting h => h.keep hfooting

include h

theorem blocks : n.blocks = shelves.blocks := congrArg Shelves.blocks h.shelves

theorem pending : n.pendingCertifiedChildren = shelves.pendingCertifiedChildren :=
  congrArg Shelves.pendingCertifiedChildren h.shelves

theorem orphanBlocks : n.orphanBlocks = shelves.orphanBlocks := congrArg Shelves.orphanBlocks h.shelves

theorem knownBlock_eq_none {blockHash : HashBytes} :
    n.knownBlock blockHash = none ↔ ∀ b ∈ shelves.knownBlocks, b.blockHash ≠ blockHash := by
  rw [Node.knownBlock_eq_none, ← h.shelves]
  rfl

theorem emit (effect : Effect) : Ends (Placed ledger shelves) errs (NodeM.emit effect) n :=
  .modify (h.keep rfl)

/-! ## Receipts -/

theorem storeReceipt_ends (receipt : RelayReceipt) :
    Ends (Placed ledger shelves) errs (storeReceipt E receipt) n := by
  have hverdict : Ends (Placed ledger shelves) (fun _ => True) (validateReceipt E receipt) n :=
    Ends.read <| .ite (fun _ => .pure h) fun _ => by
      split
      · exact .pure h
      · exact .ite (fun _ => .bind (.modify (h.keep rfl)) fun _ _ _ h => .throw trivial h)
          fun _ => .throw trivial h
  refine hverdict.attempt.bind fun result m _ hm => ?_
  cases result with
  | error e => exact .pure hm
  | ok _ =>
    obtain ⟨isNew, hrun⟩ := run_persistReceipt (E := E) (n := m) receipt
    unfold Ends
    rw [hrun]
    exact hm.keep rfl

/-- The receipt for a message is signed and kept. -/
theorem maybeIssueReceipt_ends (hsigns : SignsCorrectly E) (source destination : ValidatorId)
    (messageClass : MessageClass) (slot : Slot) (transcriptDigest byteHash : HashBytes)
    (sequenceNumber : Nat) :
    Ends (Placed ledger shelves) errs (maybeIssueReceipt E source destination messageClass slot
      transcriptDigest byteHash sequenceNumber) n := by
  unfold maybeIssueReceipt
  refine .ite (fun _ => .pure h) fun _ => .ofExcept_bind h (fun e he => ?_) fun signature hsign => ?_
  · obtain ⟨signature, hsign⟩ := hsigns.signs _
    rw [ofCrypto_ok.2 hsign] at he
    cases he
  refine (h.emit _).bind fun _ _ _ h => .ofExcept_bind h (fun e he => ?_) fun _ _ => ?_
  · rw [validateHybridReceiptPolicy, hsigns.hybrid (ofCrypto_ok.1 hsign)] at he
    cases he
  exact (h.storeReceipt_ends _).bind fun isNew _ _ h => .ite (fun _ => h.emit _)
    fun _ => .pure h

/-! ## Blocks -/

section
variable (hvalidators : E.genesis.validators ≠ [])
include hvalidators

omit hvalidators in
theorem importBufferedProposalVotesForBlock_ends (fuel : Nat) (block : Block) :
    Ends (Placed ledger shelves) errs (importBufferedProposalVotesForBlock E fuel block) n :=
  Ends.read <| by
    split
    · exact .pure h
    · next byValidator hfound =>
      rw [h.inert.buffered_nil hfound]
      exact .bind (.modify ⟨h.ledger, h.shelves, h.inert.takeBuffered _⟩) fun _ _ _ h => .pure h

theorem maybeFinalizeQuorumCertificate_ends (fuel : Nat) (blockHash : HashBytes) :
    Ends (Placed ledger shelves) errs (maybeFinalizeQuorumCertificate E fuel blockHash) n := by
  unfold Ends
  rw [h.inert.run_maybeFinalizeQuorumCertificate hvalidators]
  exact h

variable (hv1 : E.v2 = false)
include hv1

theorem acceptExtension_ends (fuel : Nat) (block : Block) (next : LedgerState) :
    Ends (Placed next (shelves.extended block)) errs
      (acceptExtension E (fuel + 1) block next) n := by
  have hextended : Placed next (shelves.extended block)
      (n.extendedBy next block) := by
    refine ⟨rfl, ?_, h.inert.of_ballots rfl⟩
    rw [← h.shelves]
    rfl
  refine .bind (.modify hextended) fun _ _ _ h => (h.emit _).bind fun _ _ _ h =>
    (h.emit _).bind fun _ m _ h => ?_
  have hreceipts : Ends (Placed next (shelves.extended block)) errs
      (importCommitmentReceipts E block.commitmentReceipts) m := by
    unfold Ends
    rw [run_importCommitmentReceipts]
    exact h.keep rfl
  refine hreceipts.bind fun _ _ _ h => (h.importBufferedProposalVotesForBlock_ends _ _).bind
    fun _ _ _ h => (h.maybeFinalizeQuorumCertificate_ends hvalidators _ _).bind fun _ _ _ h => ?_
  refine .bind (.modify (h.keep rfl)) fun _ _ _ h => (h.emit _).bind fun _ _ _ h => ?_
  rw [castVote_plain hv1]
  exact .bind (.pure h) fun _ _ _ h => (sends.maybePushTipProgress h).attempt.bind
    fun _ _ _ h => .pure h

/-- **A valid child of the tip becomes the tip.** -/
theorem acceptBlock_extends (hnew : ∀ b ∈ shelves.knownBlocks, b.blockHash ≠ block.blockHash)
    (hvalid : validateReceivedBlock E block = .ok ())
    (hparent : block.header.parentHash = ledger.snapshot.tipHash)
    (happly : ledger.applyBlock E.hashing E.crypto block = .ok next) (fuel : Nat) : ∃ n',
    (acceptBlock E (fuel + 1) block false).run n = .ok .accepted n' ∧
      Placed next (shelves.extended block) n' := by
  rw [← h.knownBlock_eq_none] at hnew
  rw [← h.ledger] at hparent happly
  have hextension : validateExtension E n block false = .ok next :=
    validateExtension_received (proposer_of_validateReceivedBlock hvalid) hparent happly
  have hrun : (acceptBlock E (fuel + 1) block false).run n =
      (acceptExtension E (fuel + 1) block next).run n := by
    unfold acceptBlock
    rw [Proc.run_get_bind, if_neg (by simp [hnew]), NodeM.check,
      Proc.run_ofExcept_bind_of_ok hvalid, if_neg (by simpa using hparent), NodeM.check,
      Proc.run_ofExcept_bind_of_ok hextension, if_neg (by simp [h.inert.certifiedHeadOnlyActive])]
  obtain ⟨acceptance, n', hok, hn'⟩ := (h.acceptExtension_ends hvalidators hv1 fuel block next).returns
  obtain rfl := acceptExtension_accepted hok
  exact ⟨n', hrun.trans hok, hn'⟩

/-- A block beside the tip is stored, and nothing else is done with it. -/
theorem run_acceptCompetingBlock (hnew : ∀ b ∈ shelves.knownBlocks, b.blockHash ≠ block.blockHash)
    (fuel : Nat) : ∃ n', (acceptCompetingBlock E fuel block).run n =
      .ok (if ledger.snapshot.tipHash == block.blockHash then .accepted else .orphan) n' ∧
        Placed ledger (shelves.addOrphan block) n' := by
  rw [← h.knownBlock_eq_none] at hnew
  have hadded : Placed ledger (shelves.addOrphan block)
      ((n.addOrphan block).written (.appendOrphan block)) := by
    refine ⟨h.ledger, ?_, h.inert.of_ballots rfl⟩
    rw [← h.shelves]
    rfl
  obtain ⟨_, m, himport, hm⟩ :=
    (hadded.importBufferedProposalVotesForBlock_ends (E := E) fuel block).returns
  have horphans : hasBlock n.orphanBlocks block.blockHash = false := by
    rw [hasBlock_eq_false]
    intro b hb
    exact Node.knownBlock_eq_none.1 hnew b (Node.mem_knownBlocks.2 (.inr (.inr hb)))
  refine ⟨m, ?_, hm⟩
  unfold acceptCompetingBlock
  rw [Proc.run_get_bind, h.inert.isDirectChild, horphans]
  simp only [Bool.false_eq_true, if_false, Bool.false_and]
  refine (Proc.run_bind_of_ok (s := (n.addOrphan block).written (.appendOrphan block)) himport).trans ?_
  have hvote : maybeBroadcastVoteForCompetingBlock E fuel block = pure () := by
    simp [maybeBroadcastVoteForCompetingBlock, hv1]
  have hadopt : (maybeAdoptPreferredCompetingBranch E fuel block).run m = .ok false m := by
    simp [maybeAdoptPreferredCompetingBranch, hv1]
  rw [Proc.run_get_bind, hvote, Proc.run_bind_of_ok (Proc.run_pure () m),
    Proc.run_bind_of_ok (hm.inert.run_maybeFinalizeQuorumCertificate hvalidators fuel _),
    Proc.run_bind_of_ok hadopt, Proc.run_get_bind, hm.ledger]
  cases ledger.snapshot.tipHash == block.blockHash <;> rfl

/-- **Any other valid block waits among the orphans.** -/
theorem acceptBlock_waits (hnew : ∀ b ∈ shelves.knownBlocks, b.blockHash ≠ block.blockHash)
    (hvalid : validateReceivedBlock E block = .ok ())
    (hparent : block.header.parentHash ≠ ledger.snapshot.tipHash)
    (htip : ledger.snapshot.tipHash ≠ block.blockHash) (fuel : Nat) : ∃ n',
    (acceptBlock E fuel block false).run n = .ok .orphan n' ∧
      Placed ledger (shelves.addOrphan block) n' := by
  obtain ⟨m, hcompeting, hm⟩ := h.run_acceptCompetingBlock hvalidators hv1 hnew fuel
  rw [if_neg (by simpa using htip)] at hcompeting
  rw [← h.knownBlock_eq_none] at hnew
  rw [← h.ledger] at hparent
  refine ⟨m, ?_, hm⟩
  rw [← hcompeting]
  unfold acceptBlock
  rw [Proc.run_get_bind, if_neg (by simp [hnew]), NodeM.check,
    Proc.run_ofExcept_bind_of_ok hvalid, if_pos hparent]

/-- **An orphan that continues the chain becomes the tip.** -/
theorem promoteOrphan_extends {index : Nat} {orphan : Block}
    (hindex : shelves.orphanBlocks[index]? = some orphan)
    (hnew : ∀ b ∈ (shelves.withoutOrphan index).knownBlocks, b.blockHash ≠ orphan.blockHash)
    (hvalid : validateReceivedBlock E orphan = .ok ())
    (hparent : orphan.header.parentHash = ledger.snapshot.tipHash)
    (happly : ledger.applyBlock E.hashing E.crypto orphan = .ok next) (fuel : Nat) : ∃ n',
    (promoteOrphan E (fuel + 1) index).run n = .ok () n' ∧
      Placed next ((shelves.withoutOrphan index).extended orphan) n' := by
  have htaken : Placed ledger (shelves.withoutOrphan index)
      { n.withEffect (.orphanTaken orphan) with orphanBlocks := n.orphanBlocks.eraseIdx index } := by
    refine ⟨h.ledger, ?_, h.inert.of_ballots rfl⟩
    rw [← h.shelves]
    rfl
  obtain ⟨n', hrun, hn'⟩ := htaken.acceptBlock_extends hvalidators hv1 hnew hvalid hparent happly fuel
  have horphan : n.orphanBlocks[index]? = some orphan := by
    rw [← h.shelves] at hindex
    exact hindex
  refine ⟨n', ?_, hn'⟩
  unfold promoteOrphan
  rw [Proc.run_get_bind, horphan]
  show (Proc.attempt (acceptBlock E (fuel + 1) orphan false) >>= fun _ => pure ()).run
    { n.withEffect (.orphanTaken orphan) with orphanBlocks := n.orphanBlocks.eraseIdx index } = _
  rw [Proc.run_bind, Proc.run_attempt, hrun]
  rfl

end

/-! ## Gossip -/

/-- Offering a gossiped block to the store is what decides where the node ends. -/
theorem handleEvent_block_ends (hsigns : SignsCorrectly E) {p : Node → Prop}
    (hp : ∀ n n', n'.footing = n.footing → p n → p n') (sender : ValidatorId) (fuel : Nat)
    (haccept : ∀ m, Placed ledger shelves m → ∃ acceptance m',
      (acceptBlock E fuel block false).run m = .ok acceptance m' ∧
        if acceptance = .accepted then Ends p (fun _ => False) (tryPromoteOrphans E fuel fuel) m'
        else p m') :
    Ends p (fun _ => False) (handleEvent E fuel (.received sender (.blockProposal block))) n := by
  have hsends : Sends E p fun _ => True := .of_footing hp
  have hlogged {m : NodeM Unit} {s : Node} (hm : Ends p (fun _ => True) m s) :
      Ends p (fun _ => False) (logged m) s := hm.attempt.thenPure
  -- the block is not limited, and what comes before the store leaves the node where it is
  have hstart : Placed ledger shelves
      { n with knownLivePeers := n.knownLivePeers.insert sender } := h.keep rfl
  have hrecorded (status : PeerSyncStatus) : Placed ledger shelves
      (({ n with knownLivePeers := n.knownLivePeers.insert sender } :
        Node).recordPeerSyncStatusWithSlot sender status) :=
    hstart.keep (Node.footing_of_core (recordPeerSyncStatusWithSlot_core _ _))
  show Ends p (fun _ => False) (handleBlockProposal E fuel sender block) _
  obtain ⟨_, m, hissue, hm⟩ := ((hrecorded _).maybeIssueReceipt_ends hsigns sender E.me .block
    block.header.slot block.blockHash (E.hashing.canonicalHash (.header block.header))
    block.header.blockNumber).returns
  refine .after rfl (.after hissue ?_)
  obtain ⟨acceptance, m', haccepted, hend⟩ := haccept m hm
  have hattempt : (Proc.attempt (acceptBlock E fuel block false)).run m = .ok (.ok acceptance) m' := by
    rw [Proc.run_attempt, haccepted]
  refine .after hattempt ?_
  cases acceptance with
  | accepted => exact Ends.bind hend fun _ _ _ h => hsends.emit h _
  | duplicate => exact .pure hend
  | orphan =>
    -- whatever is asked for after that, the node stays where it is
    have hend : p m' := hend
    have hreach : Reaches E (fun _ => True) sender := .inr trivial
    refine .read (.ite (fun _ => hlogged (.read (hsends.sendTo hreach hend _))) fun _ => ?_)
    refine .bind (.modify (hp m' _ rfl hend)) fun _ _ _ h => ?_
    exact (hlogged (hsends.pushBestSyncTo hreach h _ _)).bind fun _ _ _ h =>
      hlogged (hsends.requestSyncFrom hreach h)

end Placed

end

end Entangrid
