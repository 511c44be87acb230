import Entangrid.Node.Proof.BlockStore
import Entangrid.Node.Proof.OneVote
import Entangrid.Node.Proof.Quorum

/-!
# What the header of a canonical block is checked for

Every path onto the chain checks that the block is signed by the proposer of its slot. None looks at
the epoch, and none compares the slot with the parent's; a node that builds a block puts the epoch of
the slot into it.

* `canonical_block_headers`: what holds of the blocks of every reachable state.
-/

namespace Entangrid

variable {E : Env} {A : Source} {n n' : Node}

/-- A property of all blocks that a node takes up holds of all blocks it knows. -/
theorem Step.forall_known {Q : Block → Prop} (hnew : ∀ block, A.New E n block → Q block)
    (h : ∀ block ∈ n.knownBlocks, Q block) (hstep : Step E A n n') :
    ∀ block ∈ n'.knownBlocks, Q block :=
  fun block hb => (hstep.knownBlocks hb).elim (h block) (hnew block)

/-- The block is signed by the proposer of its slot. -/
def SignedBySlotProposer (E : Env) (block : Block) : Prop :=
  block.header.proposerId = E.consensus.proposerForSlot block.header.slot ∧
    E.crypto.verify block.header.proposerId block.blockHash block.signature = .ok true

/-- Every block of a validated chain was validated at some ledger. -/
theorem validateSnapshotBlocks_mem {ledger ledger' : LedgerState} {start : HashBytes}
    {chain : List Block} (h : validateSnapshotBlocks E ledger start chain = .ok ledger')
    {block : Block} (hb : block ∈ chain) :
    ∃ l parent, validateSnapshotBlock E l block parent = .ok () := by
  induction chain generalizing ledger start with
  | nil => simp at hb
  | cons b chain ih =>
    obtain ⟨_, hblock, h⟩ := except_bind_ok.1 h
    obtain ⟨l, -, h⟩ := except_bind_ok.1 h
    rcases List.mem_cons.1 hb with rfl | hb
    · exact ⟨ledger, start, hblock⟩
    · exact ih h hb

theorem signed_of_new {block : Block} (h : A.New E n block) : SignedBySlotProposer E block := by
  rcases h with ⟨-, hvalid⟩ | ⟨-, hvalid⟩
  · simp only [validateReceivedBlock, except_bind_ok, rejectIf_ok, verifySignature_ok] at hvalid
    obtain ⟨_, -, _, hsigned, _, hproposer, -⟩ := hvalid
    exact ⟨by simpa using hproposer, hsigned⟩
  · obtain ⟨_, _, _, _, _, -, -, hchain, -, hmem⟩ := hvalid
    obtain ⟨l, parent, hvalid⟩ := validateSnapshotBlocks_mem hchain hmem
    simp only [validateSnapshotBlock, except_bind_ok, rejectIf_ok, verifySignature_ok,
      ConsensusEngine.validateBlockBasic] at hvalid
    obtain ⟨_, -, _, hsigned, _, -, _, ⟨_, hproposer, -⟩, -⟩ := hvalid
    exact ⟨by simpa using hproposer, hsigned⟩

/-- A block the node builds has the epoch of its slot. -/
theorem Step.built_epoch (hstep : Step E A n n')
    (h : ∀ block ∈ n.builtBlocks, block.header.epoch = E.consensus.epochForSlot block.header.slot)
    {block : Block} (hb : block ∈ n'.builtBlocks) :
    block.header.epoch = E.consensus.epochForSlot block.header.slot := by
  rcases hstep.effect_new (Node.mem_builtBlocks.1 hb) (by simp) (by simp) with hold | hguard
  · exact h block (Node.mem_builtBlocks.2 hold)
  · obtain ⟨slot, epoch, timestamp, hbuild, rfl⟩ := hguard
    obtain ⟨_, -, hbuild⟩ := except_bind_ok.1 hbuild
    obtain rfl := Except.ok.inj hbuild
    rfl

/-- **The header law of the canonical chain**: every block is signed by the proposer of its slot, and
a block the node built has the epoch of its slot. -/
theorem canonical_block_headers (E : Env) (n : Node) (hn : Reachable E AnyEvent n) (block : Block)
    (hb : block ∈ n.blocks) : SignedBySlotProposer E block ∧
      (block ∈ n.builtBlocks →
        block.header.epoch = E.consensus.epochForSlot block.header.slot) := by
  have hinv := hn.invariant (I := fun n => (∀ b ∈ n.knownBlocks, SignedBySlotProposer E b) ∧
      ∀ b ∈ n.builtBlocks, b.header.epoch = E.consensus.epochForSlot b.header.slot) admits_any
    (fun slot => ⟨by simp [Node.knownBlocks, Node.fresh], by simp [Node.builtBlocks, Node.fresh]⟩)
    fun m m' _ h hstep =>
      ⟨hstep.forall_known (fun b hb => signed_of_new hb) h.1, fun b hb => hstep.built_epoch h.2 hb⟩
  exact ⟨hinv.1 block (Node.mem_knownBlocks.2 (.inl hb)), hinv.2 block⟩

/-! ## Runs -/

/-- Validator 4 with its clock in slot 6, the second slot of epoch 1. -/
def lateEnv : Env := { sampleEnv 4 with clock := fun _ => 6000 }

/-- What tells apart blocks that carry no commitment. -/
def Block.contents (block : Block) :=
  (block.header, block.transactions, block.commitmentReceipts, block.signature, block.blockHash)

theorem Block.contents_inj {a b : Block} (ha : a.commitment = none) (hb : b.commitment = none)
    (h : a.contents = b.contents) : a = b := by
  cases a
  cases b
  simp only at ha hb
  simp only [contents, Prod.mk.injEq] at h
  obtain ⟨rfl, rfl, rfl, rfl, rfl⟩ := h
  rw [ha, hb]

theorem late_run : (runEvents lateEnv 8 [.received 2 (.blockProposal rivalBlock), .slotTick]
    (.fresh lateEnv (some 5))).map (fun n =>
      (n.blocks.map (fun b => (b.header.slot, b.header.epoch)),
        decide ((n.blocks.drop 1).map Block.contents = n.builtBlocks.map Block.contents) &&
          (n.blocks ++ n.builtBlocks).all (·.commitment.isNone))) = some ([(1, 0), (6, 1)], true) := by
  decide +kernel

/-- Validator 4 takes a block and builds one on it: both are signed by the proposers of their slots, and
its own block is of the epoch of slot 6. -/
theorem late_chain_is_signed : ∃ n, Reachable lateEnv AnyEvent n ∧ n.blocks.length = 2 ∧
    (∀ block ∈ n.blocks, SignedBySlotProposer lateEnv block) ∧
    ∃ block ∈ n.blocks, block ∈ n.builtBlocks ∧ block.header.slot = 6 ∧
      block.header.epoch = lateEnv.consensus.epochForSlot block.header.slot := by
  obtain ⟨n, hn, hvalues⟩ := Option.map_eq_some_iff.1 late_run
  simp only [Prod.mk.injEq, Bool.and_eq_true, decide_eq_true_eq, List.all_eq_true,
    Option.isNone_iff_eq_none] at hvalues
  obtain ⟨hheaders, hcontents, hplain⟩ := hvalues
  have hreachable := Reachable.runEvents (P := AnyEvent) (.fresh _) (fun _ _ _ => trivial) hn
  obtain ⟨first, rest, heq, -, hrest⟩ := List.map_eq_cons_iff.1 hheaders
  obtain ⟨own, _, rfl, hown, hnone⟩ := List.map_eq_cons_iff.1 hrest
  obtain rfl := List.map_eq_nil_iff.1 hnone
  have hlast : own ∈ n.blocks := by simp [heq]
  have hbuilt : own ∈ n.builtBlocks := by
    rw [heq, List.drop_succ_cons, List.drop_zero, List.map_singleton, eq_comm] at hcontents
    obtain ⟨block, _, hblocks, hblock, -⟩ := List.map_eq_cons_iff.1 hcontents
    have hmem : block ∈ n.builtBlocks := by simp [hblocks]
    rwa [← Block.contents_inj (hplain _ (List.mem_append_right _ hmem))
      (hplain _ (List.mem_append_left _ hlast)) hblock]
  refine ⟨n, hreachable, by simp [heq], fun block hb => ?_, own, hlast, hbuilt,
    (Prod.mk.inj hown).1, ?_⟩
  · exact (canonical_block_headers lateEnv n hreachable block hb).1
  · exact (canonical_block_headers lateEnv n hreachable own hlast).2 hbuilt

/-- A block of slot 0 on top of the rival block of slot 1, in epoch 9. -/
def backdatedBlock : Block :=
  signedBlock 2 rivalBlock.blockHash 0 9 ((sampleEnv 1).consensus.proposerForSlot 0) []
    (.fromGenesis sampleGenesis)

theorem backdated_run : (runEvents (sampleEnv 1) 8 [.received 2 (.blockProposal rivalBlock),
    .received 4 (.blockProposal backdatedBlock)] (.fresh (sampleEnv 1) (some 1))).map (fun n =>
      n.blocks.map fun b => (b.header.slot, b.header.epoch)) = some [(1, 0), (0, 9)] := by
  decide +kernel

/-- A canonical block can have another epoch than its slot's, and a slot below its parent's. -/
theorem canonical_block_breaks_time_law : ∃ n, Reachable (sampleEnv 1) AnyEvent n ∧
    ∃ parent block, n.blocks[0]? = some parent ∧ n.blocks[1]? = some block ∧
      block.header.epoch ≠ (sampleEnv 1).consensus.epochForSlot block.header.slot ∧
      ¬parent.header.slot < block.header.slot := by
  obtain ⟨n, hn, hblocks⟩ := Option.map_eq_some_iff.1 backdated_run
  obtain ⟨parent, rest, heq, hparent, hrest⟩ := List.map_eq_cons_iff.1 hblocks
  obtain ⟨block, _, rfl, hblock, -⟩ := List.map_eq_cons_iff.1 hrest
  simp only [Prod.mk.injEq] at hparent hblock
  refine ⟨n, Reachable.runEvents (.fresh _) (fun _ _ _ => trivial) hn, parent, block, by simp [heq],
    by simp [heq], ?_, ?_⟩
  · rw [hblock.1, hblock.2]
    decide +kernel
  · rw [hparent.1, hblock.1]
    decide

end Entangrid
