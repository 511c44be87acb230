import Entangrid.Lib.MapTotal
import Entangrid.Node.Proof.ChainFiles
import Entangrid.Node.Proof.Quorum

/-!
# Certificates that hold everywhere

A vote is stored under a block only after it was checked against a block with that hash. Blocks of one
hash have one header, so it passes against any of them, whichever node knows it and however often the
block was lost and came back. A certificate assembled from stored votes is then valid for every node
of the network.

* `Lives`: a node over all its lives; it starts again on what a crash left of its directory.
* `CertInv`: the invariant of the known blocks, the written blocks and the stored votes.
* `built_certificates_are_valid`: a certificate a node builds is well formed, has distinct voters and
  is valid for every node.
-/

namespace Entangrid

open LedgerState
open Proc (Moves)

variable {E E' : Env} {A : Source} {S : Set Block} {n n' : Node} {d : Disk}

/-! ## Lives -/

/-- A node over its lives, on the directory it last started with: all blocks that arrive, and those it
builds, are in `S`. -/
inductive Lives (E : Env) (S : Set Block) : Disk → Node → Prop
  | start {n : Node} (hrun : ((startNode E {}).run (({} : Disk).node E)).state? = some n) :
      Lives E S {} n
  | restart {d d' : Disk} {n n' : Node} {effects : List Effect} (hn : Lives E S d n)
      (hcrash : Crashed d n.effects effects d')
      (hrun : ((startNode E d').run (d'.node E)).state? = some n') : Lives E S d' n'
  | handle {d : Disk} {n n' : Node} (fuel : Nat) (event : Event) (hn : Lives E S d n)
      (hevent : BlocksFrom S n event) (hown : ∀ block ∈ n'.builtBlocks, block ∈ S)
      (hrun : ((handleEvent E fuel event).run n).state? = some n') : Lives E S d n'

/-- The blocks of `S` arrive. -/
abbrev arrivals (S : Set Block) : Source := { blocks := S, carried := S }

/-- A state a node comes through, between two events or while it handles one. -/
def ComesThrough (E : Env) (S : Set Block) (m : Node) : Prop :=
  ∃ d n, Lives E S d n ∧ Steps E (arrivals S) n m ∧ ∀ block ∈ m.builtBlocks, block ∈ S

/-! ## Nodes of one network -/

/-- Nodes with one genesis, the same flags and hashes, that verify signatures alike. -/
structure Env.Alike (E E' : Env) : Prop where
  genesis : E'.genesis = E.genesis
  flags : E'.config.featureFlags = E.config.featureFlags
  hashing : E'.hashing = E.hashing
  verify : E'.crypto.verify = E.crypto.verify

namespace Env.Alike

variable (h : E.Alike E')
include h

theorem validateProposalVoteForBlock (vote : ProposalVote) (block : Block) :
    Entangrid.validateProposalVoteForBlock E' vote block =
      Entangrid.validateProposalVoteForBlock E vote block := by
  simp only [Entangrid.validateProposalVoteForBlock, validateProposalVoteSignatureAndSigner,
    verifySignature, validateHybridProposalVotePolicy, requireHybrid, h.genesis, h.flags, h.hashing,
    h.verify]

theorem validateQuorumCertificateForBlock (qc : QuorumCertificate) (block : Block) :
    Entangrid.validateQuorumCertificateForBlock E' qc block =
      Entangrid.validateQuorumCertificateForBlock E qc block := by
  simp only [Entangrid.validateQuorumCertificateForBlock, h.genesis, h.hashing,
    h.validateProposalVoteForBlock]

end Env.Alike

/-- The check of a vote reads the header of the block. -/
theorem validateProposalVoteForBlock_congr {vote : ProposalVote} {block block' : Block}
    (h : block.header = block'.header) :
    validateProposalVoteForBlock E vote block = validateProposalVoteForBlock E vote block' := by
  simp only [validateProposalVoteForBlock, h]

/-! ## The invariant -/

/-- A block of `S` under the hash of its body. -/
abbrev Sound (H : Hashing) (S : Set Block) (block : Block) : Prop := block ∈ S ∧ Hashed H block

theorem CollisionFree.header_eq {H : Hashing} (hS : CollisionFree H S) {b c : Block}
    (hb : Sound H S b) (hc : Sound H S c) (h : b.blockHash = c.blockHash) : b.header = c.header :=
  (hS.injective b hb.1 c hc.1 (hb.2.trans (h.trans hc.2.symm))).1

/-- The blocks a write puts into `blocks.jsonl`. -/
def StorageWrite.chainBlocks : StorageWrite → List Block
  | .appendBlock block => [block]
  | .overwriteBlocks blocks => blocks
  | _ => []

/-- A vote lies under its block and its validator, and passes the check against the block, whichever
block of `S` has the hash. -/
structure CheckedVote (E : Env) (S : Set Block) (h : HashBytes) (v : ValidatorId)
    (vote : ProposalVote) : Prop where
  blockHash : vote.blockHash = h
  voter : vote.validatorId = v
  valid : ∀ block, Sound E.hashing S block → block.blockHash = h →
    validateProposalVoteForBlock E vote block = .ok ()

structure CertInv (E : Env) (S : Set Block) (n : Node) : Prop where
  known : ∀ block ∈ n.knownBlocks, Sound E.hashing S block
  taken : ∀ block ∈ n.takenOrphans, block ∈ S
  written : ∀ w, .write w ∈ n.effects → ∀ block ∈ w.chainBlocks, Sound E.hashing S block
  votes : ∀ h v vote, VoteMap.lookup n.proposalVotes h v = some vote → CheckedVote E S h v vote
  entries : VoteMap.NoEmpty n.proposalVotes

/-- A block that was not known before carries its hash. -/
theorem Source.New.hashed {block : Entangrid.Block} (h : A.New E n block) :
    Hashed E.hashing block := by
  rcases h with ⟨-, hvalid⟩ | ⟨-, base, suffix, start, ledger, ledger', -, -, hblocks, -, hmem⟩
  · exact hashed_of_validateReceivedBlock hvalid
  · exact (validateSnapshotBlocks_ok hblocks).2.1 block hmem

/-- A stored vote was stored before, or was checked against a known block. -/
theorem Step.lookup_proposalVotes (h : Step E A n n') {k : HashBytes} {v : ValidatorId}
    {vote : ProposalVote} (hv : VoteMap.lookup n'.proposalVotes k v = some vote) :
    VoteMap.lookup n.proposalVotes k v = some vote ∨
      (vote.blockHash = k ∧ vote.validatorId = v ∧ ∃ block, n.knownBlock k = some block ∧
        validateProposalVoteForBlock E vote block = .ok ()) := by
  have hshrink (hs : Node.VotesShrink n n') :
      VoteMap.lookup n.proposalVotes k v = some vote := (hs k v vote).1 hv
  cases h with
  | book h =>
    exact .inl (hshrink (.of_eq (Node.core_proposalVotes h) (Node.core_bufferedVotes h)))
  | replaceVotes => exact .inl (hshrink (Node.votesShrink_withoutVotes _))
  | storeVote new block _ _ hknown hvalid =>
    rw [Node.addVote_proposalVotes, VoteMap.lookup_store] at hv
    split_ifs at hv with hkey
    · obtain rfl := Option.some.inj hv
      obtain ⟨rfl, rfl⟩ := hkey
      exact .inr ⟨rfl, rfl, block, hknown, hvalid⟩
    · exact .inl ((Node.votesShrink_withoutVotes _ k v vote).1 hv)
  | bufferVote => exact .inl ((Node.votesShrink_withoutVotes _ k v vote).1 hv)
  | dropConflicting => exact .inl (hshrink (Node.votesShrink_dropConflicting _))
  | prune => exact .inl (hshrink (Node.votesShrink_prune _ _))
  | retainEvidence => exact .inl (hshrink (Node.votesShrink_retainEvidence _))
  | _ => exact .inl hv

theorem Step.noEmpty (h : Step E A n n') (hv : VoteMap.NoEmpty n.proposalVotes) :
    VoteMap.NoEmpty n'.proposalVotes := by
  cases h with
  | book h => exact Node.core_proposalVotes h ▸ hv
  | replaceVotes | bufferVote =>
    rw [Node.withoutVotes_eq]
    exact hv.foldl_remove _
  | storeVote =>
    rw [Node.withoutVotes_eq]
    exact (hv.foldl_remove _).store _
  | dropConflicting => exact .removeConflicting _
  | prune | retainEvidence => exact hv.filter _
  | _ => exact hv

theorem StorageWrite.chainBlocks_of_quiet {w : StorageWrite} (h : w.ofChain = false) :
    w.chainBlocks = [] := by
  cases w with
  | appendBlock | overwriteBlocks => cases h
  | _ => rfl

/-- What a step writes to `blocks.jsonl` is on the chain after it. -/
theorem Step.written (h : Step E A n n') {w : StorageWrite} (hw : .write w ∈ n'.effects)
    {block : Block} (hb : block ∈ w.chainBlocks) : .write w ∈ n.effects ∨ block ∈ n'.blocks := by
  have hquiet {new : List Effect} (hnew : Quiet new) : .write w ∉ new := fun hmem => by
    rw [StorageWrite.chainBlocks_of_quiet (hnew _ hmem)] at hb
    cases hb
  rcases h.chain_cases with hstays | ⟨-, added, hgrows⟩ | hreplaced
  · obtain ⟨new, heffects, hnew⟩ := hstays.effects
    rw [heffects] at hw
    exact .inl ((List.mem_append.1 hw).resolve_left (hquiet hnew))
  · rw [hgrows.effects, List.mem_cons, List.mem_cons] at hw
    rcases hw with hw | hw | hw
    · cases hw
      cases hb
    · cases hw
      obtain rfl := List.mem_singleton.1 hb
      exact .inr (by simp [hgrows.blocks])
    · exact .inl hw
  · obtain ⟨pre, post, heffects, hpre, hpost⟩ := hreplaced.effects
    rw [heffects, List.mem_append, List.mem_cons, List.mem_cons, List.mem_append] at hw
    rcases hw with hw | hw | hw | hw | hw
    · exact absurd hw (hquiet hpost)
    · cases hw
      exact .inr hb
    · cases hw
      cases hb
    · exact absurd hw (hquiet hpre)
    · exact .inl hw

theorem CertInv.known_of_new (h : CertInv E S n) (hstep : Step E A n n')
    (hnew : ∀ block, A.New E n block → block ∈ S) (block : Block) (hb : block ∈ n'.knownBlocks) :
    block ∈ S :=
  (hstep.knownBlocks hb).elim (fun hold => (h.known block hold).1) (hnew block)

theorem CertInv.step (hS : CollisionFree E.hashing S) (h : CertInv E S n) (hstep : Step E A n n')
    (hmem : ∀ block ∈ n'.knownBlocks, block ∈ S) : CertInv E S n' := by
  have hknown (block : Block) (hb : block ∈ n'.knownBlocks) : Sound E.hashing S block := by
    refine ⟨hmem block hb, ?_⟩
    rcases hstep.knownBlocks hb with hold | harrived
    · exact (h.known block hold).2
    · exact harrived.hashed
  refine ⟨hknown, fun block hb => ?_, fun w hw block hb => ?_, fun k v vote hv => ?_,
    hstep.noEmpty h.entries⟩
  · rcases hstep.effect_new (Node.mem_takenOrphans.1 hb) (by simp) (by simp) with hold | hguard
    · exact h.taken block (Node.mem_takenOrphans.2 hold)
    · exact (h.known block (Node.mem_knownBlocks.2 (.inr (.inr hguard)))).1
  · rcases hstep.written hw hb with hold | hon
    · exact h.written w hold block hb
    · exact hknown block (Node.mem_knownBlocks.2 (.inl hon))
  · rcases hstep.lookup_proposalVotes hv with hold | ⟨hhash, hvoter, known, hfound, hvalid⟩
    · exact h.votes k v vote hold
    · refine ⟨hhash, hvoter, fun block hb heq => ?_⟩
      obtain ⟨hmem, hhash'⟩ := Node.knownBlock_eq_some hfound
      have hheader := hS.header_eq hb (h.known known hmem) (heq.trans hhash'.symm)
      rw [validateProposalVoteForBlock_congr hheader, hvalid]

theorem CertInv.covers (h : CertInv E S n) : (arrivals S).Covers n where
  blocks block hb := .inl (h.known block hb).1
  taken block hb := .inl (h.taken block hb)
  votes _ _ := .inl trivial
  certificates _ _ _ _ _ := .inl trivial

/-- While the blocks the node builds are in `S`, the invariant is kept. -/
theorem CertInv.steps (hS : CollisionFree E.hashing S) (h : CertInv E S n)
    (hsteps : Steps E (arrivals S) n n') (hown : ∀ block ∈ n'.builtBlocks, block ∈ S) :
    CertInv E S n' := by
  induction hsteps with
  | refl => exact h
  | @tail m m' _ hlast ih =>
    have hown' : ∀ block ∈ m.builtBlocks, block ∈ S := fun block hb =>
      hown block ((hlast.effects_suffix.filterMap _).mem hb)
    have hm := ih hown'
    refine hm.step hS hlast (hm.known_of_new hlast fun block hnew => ?_)
    exact (hnew.arrived hm.covers).elim id (Or.elim · id (hown' block))

/-! ## Starting again -/

theorem Disk.write_blocks {w : StorageWrite} {block : Block} (hb : block ∈ (d.write w).blocks) :
    block ∈ d.blocks ∨ block ∈ w.chainBlocks := by
  cases w with
  | appendBlock added => exact List.mem_append.1 hb
  | overwriteBlocks blocks => exact .inr hb
  | _ => exact .inl hb

theorem Disk.after_blocks {effects : List Effect} {block : Block}
    (hb : block ∈ (d.after effects).blocks) :
    block ∈ d.blocks ∨ ∃ w, .write w ∈ effects ∧ block ∈ w.chainBlocks := by
  induction effects with
  | nil => exact .inl hb
  | cons effect earlier ih =>
    have hrest (hb : block ∈ (d.after earlier).blocks) :
        block ∈ d.blocks ∨ ∃ w, .write w ∈ effect :: earlier ∧ block ∈ w.chainBlocks :=
      (ih hb).imp_right fun ⟨w, hw, hmem⟩ => ⟨w, List.mem_cons_of_mem _ hw, hmem⟩
    cases effect with
    | write w =>
      rcases Disk.write_blocks hb with hb | hb
      · exact hrest hb
      · exact .inr ⟨w, List.mem_cons_self, hb⟩
    | _ => exact hrest hb

theorem StorageWrite.chainBlocks_part {w part : StorageWrite} (h : part ∈ w.parts) {block : Block}
    (hb : block ∈ part.chainBlocks) : block ∈ w.chainBlocks := by
  cases w with
  | overwriteBlocks blocks =>
    obtain ⟨k, -, rfl⟩ := List.mem_map.1 h
    exact List.mem_of_mem_take hb
  | overwriteOrphans | overwriteReceipts | overwriteQuorumCertificates =>
    obtain ⟨k, -, rfl⟩ := List.mem_map.1 h
    cases hb
  | _ => cases h

/-- Blocks in a directory after a crash were there before or were written. -/
theorem Crashed.blocks {log effects : List Effect} {d' : Disk} (h : Crashed d log effects d')
    {block : Block} (hb : block ∈ d'.blocks) :
    block ∈ d.blocks ∨ ∃ w, .write w ∈ log ∧ block ∈ w.chainBlocks := by
  cases h with
  | between hsuffix =>
    exact (Disk.after_blocks hb).imp_right fun ⟨w, hw, hmem⟩ => ⟨w, hsuffix.mem hw, hmem⟩
  | within hsuffix hpart =>
    rcases Disk.write_blocks hb with hb | hb
    · exact (Disk.after_blocks hb).imp_right fun ⟨w, hw, hmem⟩ =>
        ⟨w, hsuffix.mem (List.mem_cons_of_mem _ hw), hmem⟩
    · exact .inr ⟨_, hsuffix.mem List.mem_cons_self, StorageWrite.chainBlocks_part hpart hb⟩

/-- The invariant is kept. -/
def CertKept (E : Env) (S : Set Block) (n n' : Node) : Prop := CertInv E S n → CertInv E S n'

instance (E : Env) (S : Set Block) : IsPreorder Node (CertKept E S) where
  refl _ := id
  trans _ _ _ h h' hn := h' (h hn)

theorem Acts.certKept (hS : CollisionFree E.hashing S) (h : Acts E blockless n n') :
    CertKept E S n n' := fun hn => by
  have hsteps : Steps E blockless n n' := h blockless_covers
  clear h
  induction hsteps with
  | refl => exact hn
  | tail _ hstep ih => exact ih.step hS hstep (ih.known_of_new hstep fun _ hnew => hnew.takes.elim)

/-- A node that starts on sound blocks restores votes as it imports them. -/
theorem CertInv.start (hS : CollisionFree E.hashing S)
    (hd : ∀ block ∈ d.blocks, Sound E.hashing S block)
    (hrun : ((startNode E d).run (d.node E)).state? = some n) : CertInv E S n := by
  refine (startNode_moves (A := blockless) (R := CertKept E S) (fun _ => trivial)
    (Acts.certKept hS) (fun _ _ h => ⟨h.known, h.taken, h.written, h.votes, h.entries⟩)
    (fun _ h => ⟨h.known, h.taken, h.written, h.votes, h.entries⟩) d).of_state? hrun ?_
  refine ⟨fun block hb => hd block ?_, by simp [Node.takenOrphans, Disk.node], by simp [Disk.node],
    by simp [Disk.node], .empty⟩
  simpa [Node.knownBlocks, Disk.node] using hb

theorem Lives.certInv (hS : CollisionFree E.hashing S) (hn : Lives E S d n) :
    CertInv E S n ∧ ∀ block ∈ d.blocks, Sound E.hashing S block := by
  induction hn with
  | start hrun => exact ⟨.start hS (by simp) hrun, by simp⟩
  | restart _ hcrash hrun ih =>
    have hd : ∀ block ∈ _, Sound E.hashing S block := fun block hb => by
      rcases hcrash.blocks hb with hb | ⟨w, hw, hb⟩
      · exact ih.2 block hb
      · exact ih.1.written w hw block hb
    exact ⟨.start hS hd hrun, hd⟩
  | handle fuel event _ hevent hown hrun ih =>
    have hmoves := handleEvent_moves (E := E) fuel (admits_blocksFrom _ event hevent)
    exact ⟨ih.1.steps hS (hmoves.of_state? hrun ih.1.covers) hown, ih.2⟩

theorem ComesThrough.certInv (hS : CollisionFree E.hashing S) (h : ComesThrough E S n) :
    CertInv E S n := by
  obtain ⟨d, m, hm, hsteps, hown⟩ := h
  exact (hm.certInv hS).1.steps hS hsteps hown

/-! ## Certificates -/

/-- What is assembled from checked votes is well formed and valid for every block with its hash. -/
theorem CertInv.assembledQc_valid (hS : CollisionFree E.hashing S) (h : CertInv E S n)
    {k : HashBytes} {qc : QuorumCertificate} (hqc : assembledQc E n k = some qc) :
    qc.isWellFormed E.hashing = true ∧ (qc.votes.map (·.validatorId)).Nodup ∧
      ∀ block, Sound E.hashing S block → block.blockHash = qc.blockHash →
        validateQuorumCertificateForBlock E qc block = .ok () := by
  obtain ⟨known, byValidator, hfound, hvotes, hsize, rfl⟩ := assembledQc_eq_some hqc
  obtain ⟨hmem, hhash⟩ := Node.knownBlock_eq_some hfound
  have hchecked {v : ValidatorId} {vote : ProposalVote} (hv : byValidator[v]? = some vote) :
      CheckedVote E S k v vote :=
    h.votes k v vote (VoteMap.lookup_eq_some_iff.2 ⟨byValidator, hvotes, hv⟩)
  have hlisted (vote : ProposalVote) (hvote : vote ∈ byValidator.toList.map (·.2)) :
      ∃ v, CheckedVote E S k v vote := by
    obtain ⟨v, hv⟩ := Std.ExtTreeMap.mem_values.1 hvote
    exact ⟨v, hchecked hv⟩
  have hnonempty : (byValidator.toList.map (·.2)).isEmpty = false := by
    have hentry := h.entries k byValidator hvotes
    rw [← Std.ExtTreeMap.isEmpty_toList] at hentry
    simpa using hentry
  have hvalid (block : Block) (hb : Sound E.hashing S block) (heq : block.blockHash = k) :
      ∀ vote ∈ byValidator.toList.map (·.2), validateProposalVoteForBlock E vote block = .ok () :=
    fun vote hvote => (hlisted vote hvote).elim fun _ hx => hx.valid block hb heq
  have hwf : QuorumCertificate.isWellFormed E.hashing
      { blockHash := k, blockNumber := known.header.blockNumber, epoch := known.header.epoch
        slot := known.header.slot
        voteRoot := quorumCertificateVoteRoot E.hashing (byValidator.toList.map (·.2))
        votes := byValidator.toList.map (·.2) } = true := by
    simp only [QuorumCertificate.isWellFormed, hnonempty, Bool.not_false, beq_self_eq_true,
      Bool.true_and, List.all_eq_true, Bool.and_eq_true, beq_iff_eq]
    intro vote hvote
    obtain ⟨v, hx⟩ := hlisted vote hvote
    obtain ⟨-, -, hnumber, hepoch, hslot⟩ :=
      validateProposalVoteForBlock_ok (hvalid known (h.known known hmem) hhash vote hvote)
    exact ⟨⟨⟨hx.blockHash, hnumber⟩, hepoch⟩, hslot⟩
  have hvoters : (byValidator.toList.map (·.2)).map (·.validatorId) = byValidator.keys :=
    Std.ExtTreeMap.values_map_eq_keys fun v vote hv => (hchecked hv).voter
  refine ⟨hwf, hvoters ▸ Std.ExtTreeMap.nodup_keys, fun block hb heq => ?_⟩
  have hheader : known.header = block.header :=
    hS.header_eq (h.known known hmem) hb (hhash.trans heq.symm)
  have hlength : quorumCertificateThreshold E.genesis.validators.length ≤
      (byValidator.toList.map (·.2)).length := by
    rw [List.length_map, Std.ExtTreeMap.length_toList]
    exact hsize
  simp only [validateQuorumCertificateForBlock, except_bind_ok, rejectIf_ok, forM_ok]
  refine ⟨(), ?_, (), by rw [hwf]; rfl, (), by simpa using hlength, (), by simp, hvalid block hb heq⟩
  simp [heq, hheader]

/-- **A certificate a node builds is valid everywhere.** In every state a node comes through, in all its
lives, the malformed branch of `maybe_build_qc` is not taken; and a new certificate has distinct
voters and passes the check of every node of the network that knows the block. -/
theorem built_certificates_are_valid (E : Env) (S : Set Block) (hS : CollisionFree E.hashing S)
    (n : Node) (hn : ComesThrough E S n) (blockHash : HashBytes) :
    (∀ n', (maybeBuildQc E blockHash).run n ≠ .err .builtMalformedCertificate n') ∧
    ∀ qc n', n.hasQc blockHash = false → (maybeBuildQc E blockHash).run n = .ok (some qc) n' →
      (qc.votes.map (·.validatorId)).Nodup ∧
      ∀ (E' : Env) (m : Node), E.Alike E' → ComesThrough E' S m → ∀ block,
        m.knownBlock qc.blockHash = some block →
        validateQuorumCertificateForBlock E' qc block = .ok () := by
  have hinv := hn.certInv hS
  constructor
  · intro n' hrun
    unfold maybeBuildQc at hrun
    rw [Proc.run_get_bind] at hrun
    split at hrun
    · cases hrun
    · split at hrun
      · cases hrun
      · next qc hqc =>
        rw [(hinv.assembledQc_valid hS hqc).1] at hrun
        cases hrun
  · intro qc n' hnone hrun
    have hqc : assembledQc E n blockHash = some qc := by
      rcases maybeBuildQc_cases hrun with ⟨hfound, -⟩ | ⟨built, heq, hbuilt, -⟩
      · simp [Node.hasQc, Std.ExtTreeMap.contains_eq_isSome_getElem?, hfound] at hnone
      · rwa [Option.some.inj heq]
    obtain ⟨-, hdistinct, hvalid⟩ := hinv.assembledQc_valid hS hqc
    refine ⟨hdistinct, fun E' m hE hm block hblock => ?_⟩
    obtain ⟨hmem, hhash⟩ := Node.knownBlock_eq_some hblock
    have hsound := (hm.certInv (hE.hashing ▸ hS)).known block hmem
    rw [hE.hashing] at hsound
    rw [hE.validateQuorumCertificateForBlock]
    exact hvalid block hsound hhash

/-! ## A run -/

theorem collisionFree_first : CollisionFree rollingHashing {firstBlock} where
  injective := by
    rintro b rfl c rfl -
    exact ⟨rfl, rfl, rfl⟩
  nonempty := by
    rintro b rfl
    decide +kernel

/-- A node starts on the empty directory and handles the first block. -/
def firstSeen (E : Env) : Option Node := do
  let n ← ((startNode E {}).run (({} : Disk).node E)).state?
  ((handleEvent E 8 (.received 4 (.blockProposal firstBlock))).run n).state?

theorem lives_firstSeen (h : firstSeen E = some n) (hown : n.builtBlocks.length = 0) :
    Lives E {firstBlock} {} n := by
  obtain ⟨n₀, hstart, hrun⟩ := Option.bind_eq_some_iff.1 h
  refine .handle 8 _ (.start hstart) (fun block hb => ?_) ?_ hrun
  · simpa [Event.blocks] using hb
  · simp [List.length_eq_zero_iff.1 hown]

def secondVoteSeen (n : Node) : Option Node :=
  ((handleEvent (sampleEnv 1) 8
    (.received 2 (.proposalVote (signedProposalVote 2 firstBlock)))).run n).state?

/-- The vote that completes the certificate of the first block. -/
def lastVote : ProposalVote := signedProposalVote 3 firstBlock

/-- The vote can be stored, and then there is a certificate to build. -/
def Node.lastVoteFacts (n : Node) : Bool :=
  decide (n.conflictingVotes (sampleEnv 1) lastVote = .ok []) &&
    decide (VoteMap.lookup n.proposalVotes lastVote.blockHash lastVote.validatorId = none) &&
    (n.knownBlock lastVote.blockHash).any (fun block =>
      decide (validateProposalVoteForBlock (sampleEnv 1) lastVote block = .ok ())) &&
    !(n.addVote lastVote).hasQc firstBlock.blockHash

/-- The hash of the certificate that is built. -/
def Node.builtQcHash (n : Node) : Option HashBytes :=
  ((maybeBuildQc (sampleEnv 1) firstBlock.blockHash).run (n.addVote lastVote)).value?.join.map
    (·.blockHash)

theorem certified_facts :
    ((firstSeen (sampleEnv 1)).bind fun n₁ => (secondVoteSeen n₁).map fun n₂ =>
      (n₁.builtBlocks.length, n₂.builtBlocks.length, n₂.lastVoteFacts, n₂.builtQcHash)) =
      some (0, 0, true, some firstBlock.blockHash) ∧
    (firstSeen (sampleEnv 2)).map (fun m =>
      (m.builtBlocks.length, (m.knownBlock firstBlock.blockHash).isSome)) = some (0, true) := by
  decide +kernel

/-- The last vote is stored in the course of an event. -/
theorem comesThrough_lastVote {n₁ n₂ : Node} (h₁ : firstSeen (sampleEnv 1) = some n₁)
    (h₂ : secondVoteSeen n₁ = some n₂) (hown₁ : n₁.builtBlocks.length = 0)
    (hown₂ : n₂.builtBlocks.length = 0) (hfacts : n₂.lastVoteFacts = true) :
    ComesThrough (sampleEnv 1) {firstBlock} (n₂.addVote lastVote) := by
  simp only [Node.lastVoteFacts, Bool.and_eq_true, decide_eq_true_eq, Option.any_eq_true] at hfacts
  obtain ⟨⟨⟨hconflicts, hnew⟩, known, hknown, hvalid⟩, -⟩ := hfacts
  have hlives : Lives (sampleEnv 1) {firstBlock} {} n₂ := by
    refine .handle 8 _ (lives_firstSeen h₁ hown₁) (fun block hb => ?_) ?_ h₂
    · simp [Event.blocks] at hb
    · simp [List.length_eq_zero_iff.1 hown₂]
  have hstored : Step (sampleEnv 1) (arrivals {firstBlock}) n₂ (n₂.addVote lastVote) :=
    .storeVote lastVote known hconflicts hnew hknown hvalid (.inl trivial)
  refine ⟨{}, n₂, hlives, .single hstored, ?_⟩
  intro block hb
  have hb' : block ∈ n₂.builtBlocks := hb
  simp [List.length_eq_zero_iff.1 hown₂] at hb'

/-- Node 1 stores the last vote and builds a certificate of the first block, which node 2 accepts. -/
theorem certificate_built_and_accepted : ∃ n qc n' m block,
    (maybeBuildQc (sampleEnv 1) firstBlock.blockHash).run n = .ok (some qc) n' ∧
    ComesThrough (sampleEnv 2) {firstBlock} m ∧ m.knownBlock qc.blockHash = some block ∧
    validateQuorumCertificateForBlock (sampleEnv 2) qc block = .ok () := by
  obtain ⟨hn, hm⟩ := certified_facts
  obtain ⟨n₁, h₁, hn⟩ := Option.bind_eq_some_iff.1 hn
  obtain ⟨n₂, h₂, hn⟩ := Option.map_eq_some_iff.1 hn
  obtain ⟨m, hm₁, hm⟩ := Option.map_eq_some_iff.1 hm
  simp only [Prod.mk.injEq] at hn hm
  obtain ⟨hown₁, hown₂, hfacts, hbuilt⟩ := hn
  obtain ⟨block, hblock⟩ := Option.isSome_iff_exists.1 hm.2
  have hnone : (n₂.addVote lastVote).hasQc firstBlock.blockHash = false := by
    simp only [Node.lastVoteFacts, Bool.and_eq_true, Bool.not_eq_true'] at hfacts
    exact hfacts.2
  have hcomes := comesThrough_lastVote h₁ h₂ hown₁ hown₂ hfacts
  have hmcomes : ComesThrough (sampleEnv 2) {firstBlock} m :=
    ⟨{}, m, lives_firstSeen hm₁ hm.1, .refl, by simp [List.length_eq_zero_iff.1 hm.1]⟩
  obtain ⟨qc, hqc, hhash⟩ := Option.map_eq_some_iff.1 hbuilt
  obtain ⟨n', hrun⟩ := Out.value?_eq_some.1 (Option.join_eq_some_iff.1 hqc)
  rw [← hhash] at hblock
  exact ⟨n₂.addVote lastVote, qc, n', m, block, hrun, hmcomes, hblock,
    ((built_certificates_are_valid (sampleEnv 1) {firstBlock} collisionFree_first _ hcomes
      firstBlock.blockHash).2 qc n' hnone hrun).2 (sampleEnv 2) m ⟨rfl, rfl, rfl, rfl⟩ hmcomes block
      hblock⟩

end Entangrid
