import Entangrid.Node.Proof.Handlers
import Entangrid.Sample

/-!
# The block store

`BlockStore E n`: the ledger is the replay of the canonical chain, the chain is hash-linked from the
empty hash to the ledger's tip, and no hash occurs twice among the blocks a node knows.

Blocks become canonical by extension, by adoption of a known branch and by three kinds of sync. All
of them link; the hashes of a linked chain differ when `canonical_hash` has no collision.
-/

namespace Entangrid

open LedgerState

/-! ## Replaying and validating chains -/

section Replay
variable {H : Hashing} {crypto : CryptoBackend} {l l' l'' : LedgerState}

theorem applyBlocks_append {xs ys : List Block} (hx : l.applyBlocks H crypto xs = .ok l') :
    l.applyBlocks H crypto (xs ++ ys) = l'.applyBlocks H crypto ys := by
  induction xs generalizing l with
  | nil =>
    cases hx
    rfl
  | cons b xs ih =>
    obtain ⟨l₁, hb, hx⟩ := except_bind_ok.1 hx
    rw [List.cons_append, applyBlocks, hb]
    exact ih hx

/-- A chain that replays has replaying parts. -/
theorem applyBlocks_append_ok {xs ys : List Block} (h : l.applyBlocks H crypto (xs ++ ys) = .ok l') :
    ∃ l₁, l.applyBlocks H crypto xs = .ok l₁ ∧ l₁.applyBlocks H crypto ys = .ok l' := by
  induction xs generalizing l with
  | nil => exact ⟨l, rfl, h⟩
  | cons b xs ih =>
    obtain ⟨l₁, hb, h⟩ := except_bind_ok.1 h
    obtain ⟨l₂, hxs, hys⟩ := ih h
    refine ⟨l₂, ?_, hys⟩
    rw [applyBlocks, hb]
    exact hxs

theorem applyBlocks_tipHash {chain : List Block} (h : l.applyBlocks H crypto chain = .ok l') :
    l'.snapshot.tipHash = tipFrom l.snapshot.tipHash chain := by
  induction chain generalizing l with
  | nil =>
    cases h
    rfl
  | cons b chain ih =>
    obtain ⟨l₁, hb, h⟩ := except_bind_ok.1 h
    obtain ⟨l₂, -, -, rfl⟩ := applyBlock_ok hb
    exact ih h

theorem replayBlocks_tipHash {genesis : GenesisConfig} {chain : List Block}
    (h : replayBlocks H crypto genesis chain = .ok l) :
    l.snapshot.tipHash = tipFrom empty_hash chain := applyBlocks_tipHash h

end Replay

/-- A block carries the hash of its body. -/
def Hashed (H : Hashing) (block : Block) : Prop := blockBodyHash H block = block.blockHash

section Validate
variable {E : Env}

theorem hashed_of_validateReceivedBlock {block : Block} {u : Unit}
    (h : validateReceivedBlock E block = .ok u) : Hashed E.hashing block := by
  obtain ⟨_, hhash, -⟩ := except_bind_ok.1 h
  simpa [Hashed, rejectIf_ok] using hhash

theorem validateBlockBasic_parent {block : Block} {parent : HashBytes} {score : Option F64}
    {gated : Bool} {threshold : F64} {u : Unit}
    (h : E.consensus.validateBlockBasic block parent score gated threshold = .ok u) :
    block.header.parentHash = parent := by
  simp only [ConsensusEngine.validateBlockBasic, except_bind_ok, rejectIf_ok] at h
  obtain ⟨_, -, _, hparent, -⟩ := h
  simpa using hparent

/-- A validated chain is linked, hashed and replays. -/
theorem validateSnapshotBlocks_ok {ledger ledger' : LedgerState} {start : HashBytes}
    {chain : List Block} (h : validateSnapshotBlocks E ledger start chain = .ok ledger') :
    Linked start chain ∧ (∀ block ∈ chain, Hashed E.hashing block) ∧
      ledger.applyBlocks E.hashing E.crypto chain = .ok ledger' := by
  induction chain generalizing ledger start with
  | nil =>
    cases h
    exact ⟨trivial, by simp, rfl⟩
  | cons b chain ih =>
    obtain ⟨_, hblock, h⟩ := except_bind_ok.1 h
    obtain ⟨l₁, hb, h⟩ := except_bind_ok.1 h
    obtain ⟨hlinked, hhashed, happly⟩ := ih h
    simp only [validateSnapshotBlock, except_bind_ok, rejectIf_ok] at hblock
    obtain ⟨_, hhash, _, -, _, -, _, hbasic, -⟩ := hblock
    have hhash' : Hashed E.hashing b := by simpa [Hashed] using hhash
    refine ⟨⟨validateBlockBasic_parent hbasic, hlinked⟩, List.forall_mem_cons.2 ⟨hhash', hhashed⟩, ?_⟩
    rw [applyBlocks, hb]
    exact happly

end Validate

/-! ## The invariant -/

section
variable {E : Env} {S : Set Block}

/-- `canonical_hash` has no collision among the bodies of `S`, and none of them hashes to the empty
hash that stands for the parent of a first block. -/
structure CollisionFree (H : Hashing) (S : Set Block) : Prop where
  injective : ∀ b ∈ S, ∀ c ∈ S, blockBodyHash H b = blockBodyHash H c →
    b.header = c.header ∧ b.transactions = c.transactions ∧ b.commitment = c.commitment
  nonempty : ∀ b ∈ S, blockBodyHash H b ≠ empty_hash

theorem CollisionFree.nodup (hS : CollisionFree E.hashing S) {chain : List Block}
    (hlinked : Linked empty_hash chain) (hmem : ∀ b ∈ chain, b ∈ S ∧ Hashed E.hashing b) :
    (chain.map (·.blockHash)).Nodup := by
  refine HashChain.nodup_of_linkedFrom (S := {b | b ∈ S ∧ Hashed E.hashing b}) ?_ ?_ hlinked hmem
  · rintro b ⟨hb, hbh⟩ c ⟨hc, hch⟩ h
    rw [← hbh, ← hch] at h
    rw [(hS.injective b hb c hc h).1]
  · rintro b ⟨hb, hbh⟩ h
    exact hS.nonempty b hb (hbh.trans h)

structure BlockStore (E : Env) (n : Node) : Prop where
  replay : replayBlocks E.hashing E.crypto E.genesis n.blocks = .ok n.ledger
  linked : Linked empty_hash n.blocks
  tip : n.ledger.snapshot.tipHash = tipFrom empty_hash n.blocks
  distinct : (n.knownBlocks.map (·.blockHash)).Nodup

/-- The invariant of a run: the store, and every known block carries its hash. -/
structure StoreInv (E : Env) (n : Node) : Prop extends BlockStore E n where
  hashed : ∀ block ∈ n.knownBlocks, Hashed E.hashing block

theorem StoreInv.of_eq {n n' : Node} (h : StoreInv E n) (hledger : n'.ledger = n.ledger)
    (hblocks : n'.blocks = n.blocks) (hknown : n'.knownBlocks = n.knownBlocks) : StoreInv E n' where
  replay := by rw [hledger, hblocks, h.replay]
  linked := by rw [hblocks]; exact h.linked
  tip := by rw [hledger, hblocks, h.tip]
  distinct := by rw [hknown]; exact h.distinct
  hashed := by rw [hknown]; exact h.hashed

variable {A : Source} {n n' : Node}

/-- A new block next to the chain. -/
theorem StoreInv.add {block : Block} (h : StoreInv E n) (hledger : n'.ledger = n.ledger)
    (hblocks : n'.blocks = n.blocks) (hperm : n'.knownBlocks.Perm (block :: n.knownBlocks))
    (hnew : n.knownBlock block.blockHash = none) (hhash : Hashed E.hashing block) :
    StoreInv E n' where
  replay := by rw [hledger, hblocks, h.replay]
  linked := by rw [hblocks]; exact h.linked
  tip := by rw [hledger, hblocks, h.tip]
  distinct := by
    rw [(hperm.map _).nodup_iff, List.map_cons, List.nodup_cons]
    refine ⟨fun hmem => ?_, h.distinct⟩
    obtain ⟨b, hb, hbh⟩ := List.mem_map.1 hmem
    exact Node.knownBlock_eq_none.1 hnew b hb hbh
  hashed b hb := by
    rcases List.mem_cons.1 (hperm.mem_iff.1 hb) with rfl | hb
    · exact hhash
    · exact h.hashed b hb

/-- A chain that replays takes the place of the old one; what it leaves out may be kept. -/
theorem StoreInv.replace (hS : CollisionFree E.hashing S)
    (hreplay : replayBlocks E.hashing E.crypto E.genesis n'.blocks = .ok n'.ledger)
    (hlinked : Linked empty_hash n'.blocks) (hchain : ∀ b ∈ n'.blocks, b ∈ S ∧ Hashed E.hashing b)
    (hpending : n'.pendingCertifiedChildren = [])
    (hdistinct : (n'.orphanBlocks.map (·.blockHash)).Nodup)
    (horphans : ∀ b ∈ n'.orphanBlocks, Hashed E.hashing b ∧ hasBlock n'.blocks b.blockHash = false) :
    StoreInv E n' where
  replay := hreplay
  linked := hlinked
  tip := replayBlocks_tipHash hreplay
  distinct := by
    rw [Node.knownBlocks, hpending, List.append_nil, List.map_append, List.nodup_append]
    refine ⟨hS.nodup hlinked hchain, hdistinct, ?_⟩
    rintro x hx y hy rfl
    obtain ⟨b, hb, rfl⟩ := List.mem_map.1 hx
    obtain ⟨c, hc, hcb⟩ := List.mem_map.1 hy
    exact hasBlock_eq_false.1 (horphans c hc).2 b hb hcb.symm
  hashed b hb := by
    rw [Node.knownBlocks, hpending, List.append_nil] at hb
    rcases List.mem_append.1 hb with hb | hb
    · exact (hchain b hb).2
    · exact (horphans b hb).1

/-- A block links to the chain of its parent. -/
theorem linked_of_buildParentChain {block : Block} {parentChain : List Block}
    (h : n.buildParentChainForBlock block = some parentChain) :
    Linked empty_hash (parentChain ++ [block]) := by
  unfold Node.buildParentChainForBlock at h
  split_ifs at h with hfirst
  · obtain rfl := Option.some.inj h
    exact ⟨hfirst.2, trivial⟩
  · obtain ⟨-, hnumbered, htip⟩ := Node.buildChainToTip_eq_some h
    exact HashChain.linkedFrom_append.2 ⟨linked_of_numberedFrom hnumbered, htip.symm, trivial⟩

/-- The chains a node adopts are linked. -/
theorem ChainSource.linked {chain : List Block} (h : ChainSource E A n chain) :
    Linked empty_hash chain := by
  have hbuilt {tip : HashBytes} {chain : List Block} (h : n.buildChainToTip tip = some chain) :
      Linked empty_hash chain := linked_of_numberedFrom (Node.buildChainToTip_eq_some h).2.1
  cases h with
  | certified tipHash h => exact hbuilt (certifiedBranchCandidate_eq_some h).1
  | betterChild h => exact hbuilt (betterUncertifiedChild_eq_some h).2
  | voteSupported tipHash h => exact hbuilt (voteSupportedCandidate_eq_some h).2.2.1
  | @competing block _ _ _ _ _ h _ =>
    obtain ⟨parentChain, -, -, hparent, -, -, -, rfl⟩ := competingChain_eq_some h
    exact linked_of_buildParentChain hparent
  | sync _ _ _ hblocks => exact (validateSnapshotBlocks_ok hblocks).1

theorem ChainSource.hashed {chain : List Block} (h : ChainSource E A n chain)
    (hknown : ∀ b ∈ n.knownBlocks, Hashed E.hashing b) {block : Block} (hb : block ∈ chain) :
    Hashed E.hashing block := by
  cases h with
  | certified tipHash h =>
    exact hknown _ (Node.buildChainToTip_known (certifiedBranchCandidate_eq_some h).1 hb)
  | betterChild h =>
    exact hknown _ (Node.buildChainToTip_known (betterUncertifiedChild_eq_some h).2 hb)
  | voteSupported tipHash h =>
    exact hknown _ (Node.buildChainToTip_known (voteSupportedCandidate_eq_some h).2.2.1 hb)
  | competing hvalid _ _ _ h =>
    obtain ⟨parentChain, -, -, hparent, -, -, -, rfl⟩ := competingChain_eq_some h
    rcases List.mem_append.1 hb with hb | hb
    · exact hknown _ (Node.buildParentChainForBlock_known hparent hb)
    · exact List.mem_singleton.1 hb ▸ hashed_of_validateReceivedBlock hvalid
  | sync _ _ _ hblocks => exact (validateSnapshotBlocks_ok hblocks).2.1 block hb

/-- The base of a segment is a linked prefix of the chain that ends in the expected tip. -/
theorem SegmentBase.linked {base : List Block} {baseTip : HashBytes}
    (h : SegmentBase E n base baseTip) (hn : BlockStore E n) :
    Linked empty_hash base ∧ tipFrom empty_hash base = baseTip := by
  cases h with
  | whole => exact ⟨hn.linked, hn.tip.symm⟩
  | @certified qc ledger hqc hlen hreplay =>
    refine ⟨?_, (replayBlocks_tipHash hreplay).symm⟩
    have := hn.linked
    rw [← List.take_append_drop qc.blockNumber n.blocks] at this
    exact (HashChain.linkedFrom_append.1 this).1

/-- Where everything that arrives is in `S`, every block known after a step is. -/
theorem Step.known_of_arrived (hstep : Step E A n n') (hc : A.Covers n)
    (hsource : ∀ b, A.Arrived n b → b ∈ S) (b : Block) (hb : b ∈ n'.knownBlocks) : b ∈ S :=
  (hstep.knownBlocks hb).elim (fun hold => hsource b (hc.blocks b hold))
    fun hnew => hsource b (hnew.arrived hc)

theorem StoreInv.step (hS : CollisionFree E.hashing S) (h : StoreInv E n) (hstep : Step E A n n')
    (hknown : ∀ b ∈ n'.knownBlocks, b ∈ S) : StoreInv E n' := by
  have hchain (b : Block) (hb : b ∈ n'.blocks) : b ∈ S :=
    hknown b (Node.mem_knownBlocks.2 (.inl hb))
  cases hstep with
  | book hcore =>
    exact h.of_eq (Node.core_ledger hcore) (Node.core_blocks hcore) (by
      rw [Node.knownBlocks, Node.core_blocks hcore, Node.core_pending hcore,
        Node.core_orphanBlocks hcore, Node.knownBlocks])
  | replaceVotes | storeVote | bufferVote =>
    rw [Node.withoutVotes_eq]
    exact h.of_eq rfl rfl rfl
  | addOrphan block hnew hvalid =>
    refine h.add rfl rfl ?_ hnew (hashed_of_validateReceivedBlock hvalid)
    simp [Node.addOrphan, Node.knownBlocks, ← List.append_assoc]
  | addPending block hnew hvalid =>
    refine h.add rfl rfl ?_ hnew (hashed_of_validateReceivedBlock hvalid)
    simp only [Node.addPendingChild, Node.knownBlocks, List.append_assoc, List.singleton_append]
    exact (List.perm_middle.append_left _).trans List.perm_middle
  | takeOrphan index =>
    have hsub : (n.orphanBlocks.eraseIdx index).Sublist n.orphanBlocks := List.eraseIdx_sublist _ _
    have hsub' := (List.Sublist.refl (n.blocks ++ n.pendingCertifiedChildren)).append hsub
    exact
      { replay := h.replay
        linked := h.linked
        tip := h.tip
        distinct := h.distinct.sublist (hsub'.map _)
        hashed := fun b hb => h.hashed b (hsub'.mem hb) }
  | @extend block ledger hnew hvalid hsrc hparent happly =>
    have hlinked : Linked empty_hash (n.blocks ++ [block]) :=
      HashChain.linkedFrom_append.2 ⟨h.linked, hparent.trans h.tip, trivial⟩
    have hreplay : replayBlocks E.hashing E.crypto E.genesis (n.blocks ++ [block]) = .ok ledger := by
      rw [replayBlocks, applyBlocks_append h.replay, applyBlocks, happly]
      rfl
    have hperm : (n.extendedBy ledger block).knownBlocks.Perm (block :: n.knownBlocks) := by
      simp only [Node.extendedBy, Node.knownBlocks, List.append_assoc, List.singleton_append]
      exact List.perm_middle
    -- next to the old chain the block would be a new block like any other
    have hadded : StoreInv E (n.addOrphan block) :=
      h.add rfl rfl (by simp [Node.addOrphan, Node.knownBlocks, ← List.append_assoc]) hnew
        (hashed_of_validateReceivedBlock hvalid)
    have hperm' := hperm.trans (List.perm_append_singleton block n.knownBlocks).symm
    have hsame : (n.addOrphan block).knownBlocks = n.knownBlocks ++ [block] := by
      simp [Node.addOrphan, Node.knownBlocks]
    exact
      { replay := hreplay
        linked := hlinked
        tip := replayBlocks_tipHash hreplay
        distinct := by
          refine (hperm'.map _).nodup_iff.2 ?_
          rw [← hsame]
          exact hadded.distinct
        hashed := fun b hb => hadded.hashed b (by rw [hsame]; exact hperm'.mem_iff.1 hb) }
  | @adopt chain ledger hsrc hreplay =>
    have hperm : (n.blocks ++ n.orphanBlocks ++ n.pendingCertifiedChildren).Perm n.knownBlocks := by
      simp only [Node.knownBlocks, List.append_assoc]
      exact List.perm_append_comm.append_left _
    refine StoreInv.replace hS hreplay hsrc.linked
      (fun b hb => ⟨hchain b hb, hsrc.hashed h.hashed hb⟩) rfl ?_ fun b hb => ?_
    · exact ((hperm.map _).nodup_iff.2 h.distinct).sublist (List.filter_sublist.map _)
    · obtain ⟨hmem, hout⟩ := List.mem_filter.1 hb
      have hout' : hasBlock chain b.blockHash = false := by simpa using hout
      exact ⟨h.hashed b (hperm.mem_iff.1 hmem), hout'⟩
  | @applySnapshot chain ledger _ hblocks hvalid =>
    obtain ⟨-, hvalid, -⟩ := validateChainSnapshot_blocks hvalid
    obtain ⟨hlinked, hhashed, hreplay⟩ := validateSnapshotBlocks_ok hvalid
    exact StoreInv.replace hS hreplay hlinked
      (fun b hb => ⟨hchain b hb, hhashed b hb⟩) rfl List.nodup_nil
      (fun b hb => absurd hb List.not_mem_nil)
  | @applySegment base blocks baseTip baseLedger ledger hblocks hbase hreplay hvalid =>
    obtain ⟨hlinked, hhashed, happly⟩ := validateSnapshotBlocks_ok hvalid
    obtain ⟨hbaseLinked, rfl⟩ := hbase.linked h.toBlockStore
    refine StoreInv.replace hS ((applyBlocks_append hreplay).trans happly)
      (HashChain.linkedFrom_append.2 ⟨hbaseLinked, hlinked⟩) (fun b hb => ⟨hchain b hb, ?_⟩) rfl
      List.nodup_nil (fun b hb => absurd hb List.not_mem_nil)
    rcases List.mem_append.1 hb with hb | hb
    · exact h.hashed b (Node.mem_knownBlocks.2 (.inl (hbase.block hb)))
    · exact hhashed b hb
  | _ => exact h.of_eq rfl rfl rfl

theorem StoreInv.fresh (slot : Option Slot) : StoreInv E (Node.fresh E slot) where
  replay := rfl
  linked := trivial
  tip := rfl
  distinct := by simp [Node.knownBlocks, Node.fresh]
  hashed := by simp [Node.knownBlocks, Node.fresh]

/-! ## What holds of every block -/

/-- What holds of every block the node has, had or built. -/
structure Node.AllBlocks (P : Block → Prop) (n : Node) : Prop where
  known : ∀ block ∈ n.knownBlocks, P block
  taken : ∀ block ∈ n.takenOrphans, P block
  built : ∀ block ∈ n.builtBlocks, P block

theorem Node.AllBlocks.fresh {P : Block → Prop} (slot : Option Slot) :
    (Node.fresh E slot).AllBlocks P where
  known := by simp [Node.knownBlocks, Node.fresh]
  taken := by simp [Node.takenOrphans, Node.fresh]
  built := by simp [Node.builtBlocks, Node.fresh]

/-- A step keeps what holds of the valid gossiped blocks, of those that sync validates and of
proposals. -/
theorem Node.AllBlocks.step {P : Block → Prop} (h : n.AllBlocks P) (hstep : Step E A n n')
    (hgossip : A.takesBlocks → ∀ b ∈ A.blocks, validateReceivedBlock E b = .ok () → P b)
    (hvalidated : ∀ b, A.Carries [b] → Validated E A n b → P b)
    (hproposal : ∀ slot epoch timestamp b, buildProposal E n slot epoch timestamp = .ok b → P b) :
    n'.AllBlocks P where
  known b hb := by
    rcases hstep.knownBlocks hb with hb | ⟨hb, hvalid⟩ | ⟨hcarries, hvalid⟩
    · exact h.known b hb
    · rcases hb.source with hsource | hsource | hsource
      · exact hgossip hb.takes b hsource hvalid
      · exact h.built b hsource
      · exact h.taken b hsource
    · exact hvalidated b hcarries hvalid
  taken b hb := by
    rcases hstep.effect_new (Node.mem_takenOrphans.1 hb) (by simp) (by simp) with hold | hguard
    · exact h.taken b (Node.mem_takenOrphans.2 hold)
    · exact h.known b (Node.mem_knownBlocks.2 (.inr (.inr hguard)))
  built b hb := by
    rcases hstep.effect_new (Node.mem_builtBlocks.1 hb) (by simp) (by simp) with hold | hguard
    · exact h.built b (Node.mem_builtBlocks.2 hold)
    · obtain ⟨slot, epoch, timestamp, hbuild, -⟩ := hguard
      exact hproposal slot epoch timestamp b hbuild

/-- The runs in which all blocks that arrive are in `S`. -/
abbrev BlocksFrom (S : Set Block) (_ : Node) (event : Event) : Prop :=
  ∀ block ∈ event.blocks, block ∈ S

theorem admits_blocksFrom (n : Node) (event : Event) (h : BlocksFrom S n event) :
    Source.Admits { blocks := S, carried := S } E n event where
  blocks block hb := h block (event.gossiped_subset hb)
  carried block hb := h block (event.carried_subset hb)

/-- While the blocks that arrive and those the node builds are in `S`, the store is in order. -/
theorem Reachable.storeInv (hS : CollisionFree E.hashing S) (hn : Reachable E (BlocksFrom S) n)
    (hown : ∀ block ∈ n.builtBlocks, block ∈ S) : StoreInv E n := by
  refine hn.invariant (I := fun n => (∀ block ∈ n.builtBlocks, block ∈ S) → StoreInv E n)
    admits_blocksFrom (fun slot _ => .fresh slot) (fun n n' hc ih hstep hown' => ?_) hown
  have hown : ∀ block ∈ n.builtBlocks, block ∈ S := fun block hb =>
    hown' block ((hstep.effects_suffix.filterMap _).mem hb)
  exact (ih hown).step hS hstep
    (hstep.known_of_arrived hc fun b hb => hb.elim id (Or.elim · id (hown b)))

/-- Every block a node knows is in `S`. -/
theorem Reachable.known_mem (hn : Reachable E (BlocksFrom S) n)
    (hown : ∀ block ∈ n.builtBlocks, block ∈ S) : ∀ b ∈ n.knownBlocks, b ∈ S := by
  refine hn.invariant (I := fun n => (∀ block ∈ n.builtBlocks, block ∈ S) → ∀ b ∈ n.knownBlocks, b ∈ S)
    admits_blocksFrom (fun slot _ b hb => ?_) (fun n n' hc _ hstep hown' => ?_) hown
  · exact absurd hb (by simp [Node.knownBlocks, Node.fresh])
  · have hown : ∀ block ∈ n.builtBlocks, block ∈ S := fun block hb =>
      hown' block ((hstep.effects_suffix.filterMap _).mem hb)
    exact hstep.known_of_arrived hc fun b hb => hb.elim id (Or.elim · id (hown b))

/-- **The block store of every reachable state is in order**: the ledger is the replay of the chain,
the chain is linked from the empty hash to the tip, and no hash occurs twice. -/
theorem reachable_block_store (E : Env) (S : Set Block) (hS : CollisionFree E.hashing S) (n : Node)
    (hn : Reachable E (BlocksFrom S) n) (hown : ∀ block ∈ n.builtBlocks, block ∈ S) :
    BlockStore E n :=
  (hn.storeInv hS hown).toBlockStore

end

/-! ## A run -/

/-- For a list of blocks the hashes of their bodies decide. -/
theorem CollisionFree.of_nodup {H : Hashing} {blocks : List Block}
    (hdistinct : (blocks.map (blockBodyHash H)).Nodup)
    (hnonempty : ∀ b ∈ blocks, blockBodyHash H b ≠ empty_hash) : CollisionFree H {b | b ∈ blocks} where
  injective b hb c hc heq := by
    rw [List.inj_on_of_nodup_map hdistinct hb hc heq]
    exact ⟨rfl, rfl, rfl⟩
  nonempty := hnonempty

theorem collisionFree_first_second :
    CollisionFree rollingHashing {b | b = firstBlock ∨ b = secondBlock} := by
  have hS : CollisionFree rollingHashing {b | b ∈ [firstBlock, secondBlock]} :=
    .of_nodup (by decide +kernel) (by decide +kernel)
  simpa using hS

/-- The two blocks arrive in the wrong order: the second waits as an orphan and is promoted. -/
theorem twoBlocks_run : ∃ n,
    runEvents (sampleEnv 1) 8 [.received 2 (.blockProposal secondBlock),
      .received 4 (.blockProposal firstBlock)] (.fresh (sampleEnv 1) (some 1)) = some n ∧
    n.blocks.length = 2 ∧ n.builtBlocks = [] := by
  have hrun : (runEvents (sampleEnv 1) 8 [.received 2 (.blockProposal secondBlock),
      .received 4 (.blockProposal firstBlock)] (.fresh (sampleEnv 1) (some 1))).map
        (fun n => (n.blocks.length, n.builtBlocks.length)) = some (2, 0) := by
    decide +kernel
  obtain ⟨n, hn, hlen⟩ := Option.map_eq_some_iff.1 hrun
  simp only [Prod.mk.injEq, List.length_eq_zero_iff] at hlen
  exact ⟨n, hn, hlen⟩

/-- The two blocks are stored. -/
theorem two_blocks_store : ∃ n,
    runEvents (sampleEnv 1) 8 [.received 2 (.blockProposal secondBlock),
      .received 4 (.blockProposal firstBlock)] (.fresh (sampleEnv 1) (some 1)) = some n ∧
    n.blocks.length = 2 ∧ BlockStore (sampleEnv 1) n := by
  obtain ⟨n, hn, hlen⟩ := twoBlocks_run
  refine ⟨n, hn, hlen.1, reachable_block_store (sampleEnv 1) {b | b = firstBlock ∨ b = secondBlock}
    collisionFree_first_second n (Reachable.runEvents (.fresh _) ?_ hn) (by simp [hlen.2])⟩
  rintro event hevent n block hblock
  simp only [List.mem_cons, List.not_mem_nil, or_false] at hevent
  rcases hevent with rfl | rfl
  · exact .inr (by simpa [Event.blocks] using hblock)
  · exact .inl (by simpa [Event.blocks] using hblock)

end Entangrid
