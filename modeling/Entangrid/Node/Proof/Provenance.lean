import Entangrid.Node.Proof.HonestNetwork
import Entangrid.Node.Proof.Production

/-!
# Where blocks come from

In a network of honest nodes every block was built by one of them: blocks are handed on as they are,
whether they are gossiped or travel in a chain. With the one block per slot of each proposer, a slot has
one block in the whole network.

* `Reachable.sourced`: whatever is known of or on its way was built by a node of the network.
* `slot_has_one_block`: two blocks of one slot are the same, wherever they are.
* `exports_import_everywhere`: the blocks a network gossips are numbered by their positions, and what a
  node exports every other node imports.
-/

namespace Entangrid

open Relation (ReflTransGen)

variable {E : Env} {O : Occasion} {n n' : Node}

/-! ## Builders -/

/-- A new block is built in a slot of the node. -/
theorem Write.builtBlocks (h : Write E O n n') {block : Block} (hb : block ∈ n'.builtBlocks) :
    block ∈ n.builtBlocks ∨ E.consensus.proposerForSlot block.header.slot = E.me := by
  cases h with
  | quiet h =>
    have heffects : n'.effects = n.effects := congrArg Watched.effects h.watched
    rw [Node.builtBlocks, heffects] at hb
    exact .inl hb
  | note effect hnote =>
    refine .inl ?_
    rcases List.mem_cons.1 (Node.mem_builtBlocks.1 hb) with heq | hb
    · subst heq
      cases hnote
    · exact Node.mem_builtBlocks.2 hb
  | propose slot built _ _ hslot hproposer =>
    rcases List.mem_cons.1 (show block ∈ built :: n.builtBlocks from hb) with rfl | hb
    · rw [hslot]
      exact .inr hproposer
    · exact .inl hb
  | _ => exact .inl hb

/-- A node builds blocks in its own slots only. -/
theorem Reachable.builder (hn : Reachable E AnyEvent n) {block : Block}
    (hb : block ∈ n.builtBlocks) : E.consensus.proposerForSlot block.header.slot = E.me := by
  induction hn with
  | fresh slot => simp [Node.builtBlocks, Node.fresh] at hb
  | handle fuel event hn _ hrun ih =>
    have hchain := hn.writes hrun
    clear hrun
    induction hchain with
    | refl => exact ih hb
    | tail _ hlast ih' => exact (hlast.builtBlocks hb).elim ih' id

namespace HonestNetwork

variable {N : HonestNetwork} {s : ClusterState} {i : ValidatorId}

/-- The blocks that nodes of the network have built. -/
def builtBlocks (s : ClusterState) : Set Block := {block | ∃ i, block ∈ (s i).builtBlocks}

/-- The blocks that a node has, or that a message of a node carries. -/
def presentBlocks (s : ClusterState) : Set Block :=
  {block | ∃ i, block ∈ (s i).knownBlocks ∨ ∃ message ∈ (s i).sent, block ∈ message.blocks}

theorem builtBlocks_mono (heffects : (s i).effects <:+ n'.effects) :
    builtBlocks s ⊆ builtBlocks (Function.update s i n') := by
  intro block ⟨j, hb⟩
  by_cases hji : j = i
  · subst hji
    refine ⟨j, ?_⟩
    rw [Function.update_self]
    exact (heffects.filterMap _).mem hb
  · exact ⟨j, by rwa [Function.update_of_ne hji]⟩

/-- The blocks of a delivered message were sent, and the other blocks of an event are at the node. -/
theorem occasion_present {event : Event} (hevent : Delivers s i event) {block : Block}
    (hb : block ∈ (Occasion.of (N.env i) (s i) event).blocks) : block ∈ presentBlocks s := by
  cases event with
  | received sender payload =>
    rcases hb with hb | hb
    · exact ⟨i, .inl hb⟩
    · exact ⟨sender, .inr ⟨payload, Node.mem_sent.2 (hevent.imp_right fun h => ⟨i, h⟩), hb⟩⟩
  | _ => exact ⟨i, .inl hb⟩

/-- **Blocks are built by the network.** -/
theorem Reachable.sourced (hs : N.Reachable s) : presentBlocks s ⊆ builtBlocks s := by
  induction hs with
  | fresh slots =>
    intro block hb
    obtain ⟨i, hb⟩ := hb
    simp [Node.knownBlocks, Node.sent, Node.fresh] at hb
  | @handle s n' fuel i event hs hevent hrun ih =>
    have hchain := (hs.node i).writes hrun
    have hmono := builtBlocks_mono (effects_suffix_of_chain hchain)
    -- what comes from the occasion was there before, or was built since
    have horigin {m : Node} (hm : m.effects <:+ n'.effects) {block : Block}
        (hb : (Occasion.of (N.env i) (s i) event).Origin m block) :
        block ∈ builtBlocks (Function.update s i n') := by
      rcases hb with hb | hb
      · exact hmono (ih (occasion_present hevent hb))
      · exact ⟨i, by rw [Function.update_self]; exact (hm.filterMap _).mem hb⟩
    intro block hb
    obtain ⟨j, hb⟩ := hb
    by_cases hji : j = i
    · subst hji
      rw [Function.update_self] at hb
      rcases hb with hb | ⟨message, hmessage, hb⟩
      · have hend := inOrder_of_chain hchain ((hs.node j).inOrder event)
        exact horigin (List.suffix_refl _) (hend.known block hb)
      · rcases sent_of_chain hchain hmessage with hold | ⟨m, hm, hmay⟩ | ⟨pulse, rfl, -⟩
        · exact hmono (ih ⟨j, .inr ⟨message, hold, hb⟩⟩)
        · exact horigin hm (hmay.blocks block hb)
        · cases hb
    · rw [Function.update_of_ne hji] at hb
      exact hmono (ih ⟨j, hb⟩)

/-- The builder of a block is the proposer of its slot. -/
theorem Reachable.builtBy (hs : N.Reachable s) {block : Block} (hb : block ∈ builtBlocks s)
    (i : ValidatorId) :
    block ∈ (s ((N.env i).consensus.proposerForSlot block.header.slot)).builtBlocks := by
  obtain ⟨j, hb⟩ := hb
  have hproposer := (hs.node j).builder hb
  rw [N.me j, (N.alike i j).consensus_eq] at hproposer
  rw [hproposer]
  exact hb

/-- Two blocks of one slot are the same: its proposer built both, and it builds one block a slot. -/
theorem Reachable.eq_of_slot (hs : N.Reachable s) (hclock : ∀ i, Monotone (N.env i).clock)
    {b c : Block} (hb : b ∈ builtBlocks s) (hc : c ∈ builtBlocks s)
    (hslot : b.header.slot = c.header.slot) : b = c := by
  have hbuilt := hs.builtBy hb 0
  have hbuilt' := hs.builtBy hc 0
  rw [← hslot] at hbuilt'
  generalize (N.env 0).consensus.proposerForSlot b.header.slot = p at hbuilt hbuilt'
  have hdescending := ((hs.node p).paced (hclock p)).built.descending
  have hnodup : (s p).builtSlots.Nodup := hdescending.imp fun hlt heq => absurd heq hlt.ne'
  exact List.inj_on_of_nodup_map hnodup hbuilt hbuilt' hslot

/-- **A slot has one block.** In a network of honest nodes whose clocks do not go back, every block that
a node has or that is on its way was built by the proposer of its slot, and any two of them of one slot
are the same. -/
theorem slot_has_one_block (N : HonestNetwork) (hclock : ∀ i, Monotone (N.env i).clock)
    (s : ClusterState) (hs : N.Reachable s) :
    (∀ i, ∀ block ∈ presentBlocks s,
      block ∈ (s ((N.env i).consensus.proposerForSlot block.header.slot)).builtBlocks) ∧
    ∀ b ∈ presentBlocks s, ∀ c ∈ presentBlocks s, b.header.slot = c.header.slot → b = c :=
  ⟨fun i _ hb => hs.builtBy (hs.sourced hb) i,
    fun _ hb _ hc hslot => hs.eq_of_slot hclock (hs.sourced hb) (hs.sourced hc) hslot⟩

end HonestNetwork

/-! ## Numbered chains -/

theorem NumberInv.blockNumber_of_getElem? {S : Set Block} (h : NumberInv E S n)
    (hlen : n.blocks.length < 2 ^ 64) {k : Nat} {block : Block} (hk : n.blocks[k]? = some block) :
    block.header.blockNumber = k + 1 := by
  have hlt := (List.getElem?_eq_some_iff.1 hk).1
  have hmem (b : Block) (hb : b ∈ n.blocks) : b ∈ n.knownBlocks := Node.mem_knownBlocks.2 (.inl hb)
  have hchain (b : Block) (hb : b ∈ n.blocks) : b ∈ S ∧ Hashed E.hashing b :=
    ⟨h.arrived b (hmem b hb), h.hashed b (hmem b hb)⟩
  rw [blockNumber_of_numbered h.linked hchain (fun b hb => h.known b (hmem b hb)) hk]
  exact Nat.mod_eq_of_lt (by omega)

/-- What a node exports is a part of its chain, and its peers accept it. -/
theorem NumberInv.export_valid {S : Set Block} {E' : Env} (h : NumberInv E S n)
    (hS : CollisionFree E.hashing S) (hpeer : E.SameNetwork E') (himport : ImportInv E n)
    (hreceipts : validateSnapshotReceipts E n.receipts [] [] = .ok ()) : ∃ chain ledger,
    n.buildChainSnapshot E = .ok chain ∧ chain.blocks <+: n.blocks ∧
      validateChainSnapshot E' chain = .ok ledger ∧ ledger.snapshot = chain.snapshot := by
  obtain ⟨ledger, hvalid, htake⟩ := h.validateSnapshotBlocks hS himport n.syncExportPrefixLen
  refine ⟨_, ledger, buildChainSnapshot_ok h.replay htake, List.take_prefix _ _, ?_, rfl⟩
  rw [hpeer.validateChainSnapshot_eq]
  simp [validateChainSnapshot, hreceipts, hvalid, rejectIf, bind, Except.bind]

theorem Env.SameNetwork.validateBlockCommitment_eq {E' : Env} (h : E.SameNetwork E')
    (weights : ServiceScoreWeights) (block : Block) :
    validateBlockCommitment E' weights block = validateBlockCommitment E weights block := by
  simp only [validateBlockCommitment, validateCommitmentBundle, h.consensus_eq,
    h.validateCommitmentReceipts_eq]

namespace HonestNetwork

variable {N : HonestNetwork} {s : ClusterState} {i : ValidatorId}

/-- The blocks an event brings were on their way. -/
theorem present_of_event {event : Event} (hevent : Delivers s i event) {block : Block}
    (hb : block ∈ event.blocks) : block ∈ presentBlocks s := by
  cases event with
  | received sender payload =>
    refine ⟨sender, .inr ⟨payload, Node.mem_sent.2 (hevent.imp_right fun h => ⟨i, h⟩), ?_⟩⟩
    cases payload with
    | certifiedSyncResponse response =>
      cases response with
      | certified r => exact hb
      | unavailable => cases hb
    | blockProposal | syncResponse | syncBlocks => exact hb
    | _ => cases hb
  | _ => cases hb

/-- What is gossiped was built by a node of the network, and so it is numbered. -/
theorem Reachable.event_numbered (hs : N.Reachable s) {S : Set Block} (hbuilt : builtBlocks s ⊆ S)
    (hnumber : ∀ k, NumberInv (N.env k) S (s k)) {event : Event} (hevent : Delivers s i event) :
    NumberedFrom (N.env i) S (s i) event := by
  have hsource {block : Block} (hb : block ∈ event.blocks) : block ∈ builtBlocks s :=
    hs.sourced (present_of_event hevent hb)
  refine ⟨fun block hb => hbuilt (hsource hb), fun block hb _ => ?_⟩
  obtain ⟨k, hb⟩ := hsource (event.gossiped_subset hb)
  rw [(N.alike k i).hashing]
  exact (hnumber k).built block hb

section
variable {S : Set Block} (hS : ∀ i, CollisionFree (N.env i).hashing S)
include hS

theorem Reachable.numbered (hs : N.Reachable s) (hbuilt : builtBlocks s ⊆ S) (i : ValidatorId) :
    Entangrid.Reachable (N.env i) (NumberedFrom (N.env i) S) (s i) := by
  induction hs generalizing i with
  | fresh slots => exact .fresh _
  | @handle s n' fuel j event hs hevent hrun ih =>
    have hmono := builtBlocks_mono (effects_suffix_of_chain ((hs.node j).writes hrun))
    have ih (k : ValidatorId) := ih (hmono.trans hbuilt) k
    by_cases hij : i = j
    · subst hij
      rw [Function.update_self]
      have hnumber (k : ValidatorId) : NumberInv (N.env k) S (s k) :=
        (ih k).numberInv (hS k) fun block hb => hbuilt (hmono ⟨k, hb⟩)
      exact .handle fuel event (ih i) (hs.event_numbered (hmono.trans hbuilt) hnumber hevent) hrun
    · rw [Function.update_of_ne hij]
      exact ih i

theorem Reachable.numberInv (hs : N.Reachable s) (hbuilt : builtBlocks s ⊆ S) (i : ValidatorId) :
    NumberInv (N.env i) S (s i) :=
  (hs.numbered hS hbuilt i).numberInv (hS i) fun _ hb => hbuilt ⟨i, hb⟩

/-- The runs of an honest network are runs in which the two validators of blocks agree: a gossiped
block was built with the default commitment. -/
theorem Reachable.agreed (hs : N.Reachable s) (hdefault : ∀ i, OwnCommitmentsDefault (N.env i))
    (hbuilt : builtBlocks s ⊆ S) (i : ValidatorId) :
    Entangrid.Reachable (N.env i) (AgreedFrom (N.env i) S) (s i) := by
  induction hs generalizing i with
  | fresh slots => exact .fresh _
  | @handle s n' fuel j event hs hevent hrun ih =>
    have hmono := builtBlocks_mono (effects_suffix_of_chain ((hs.node j).writes hrun))
    have hbefore := hmono.trans hbuilt
    have ih (k : ValidatorId) := ih hbefore k
    by_cases hij : i = j
    · subst hij
      rw [Function.update_self]
      refine .handle fuel event (ih i) ⟨hs.event_numbered hbefore (hs.numberInv hS hbefore) hevent,
        fun block hb hvalid => ?_⟩ hrun
      obtain ⟨k, hb⟩ := hs.sourced (present_of_event hevent (event.gossiped_subset hb))
      have himport := ((ih k).mono fun _ _ h => h.2).importInv (hdefault k)
      rw [(N.alike k i).validateReceivedBlock_eq (N.flags k i)] at hvalid
      rw [(N.alike k i).validateBlockCommitment_eq]
      exact himport.built block hb hvalid
    · rw [Function.update_of_ne hij]
      exact ih i

end

/-- **Exports are imported everywhere.** In a network of honest nodes with the default weights, free of
hash collisions, the blocks of every chain are numbered by their positions, and what a node exports is
accepted by every other node, with the exported snapshot. -/
theorem exports_import_everywhere (N : HonestNetwork)
    (hdefault : ∀ i, OwnCommitmentsDefault (N.env i)) (s : ClusterState) (hs : N.Reachable s)
    (hfree : ∀ i, CollisionFree (N.env i).hashing (builtBlocks s)) (i j : ValidatorId)
    (hlen : (s i).blocks.length < 2 ^ 64) :
    (∀ k block, (s i).blocks[k]? = some block → block.header.blockNumber = k + 1) ∧
    ∃ chain ledger, (s i).buildChainSnapshot (N.env i) = .ok chain ∧ chain.blocks <+: (s i).blocks ∧
      validateChainSnapshot (N.env j) chain = .ok ledger ∧ ledger.snapshot = chain.snapshot := by
  have hagreed := hs.agreed hfree hdefault (Set.Subset.refl _) i
  have hnumber := (hagreed.mono fun _ _ h => h.1).numberInv (hfree i) fun block hb => ⟨i, hb⟩
  have himport := (hagreed.mono fun _ _ h => h.2).importInv (hdefault i)
  have hreceipts := (hs.node i).receiptStore
  exact ⟨fun k block hk => hnumber.blockNumber_of_getElem? hlen hk,
    hnumber.export_valid (hfree i) (N.alike i j) himport hreceipts⟩

/-! ## A run

Validator 4 builds the block of slot 0, and validator 1 takes it. -/

def broadcastBlocks (n : Node) : List Block :=
  n.effects.filterMap fun
    | .broadcast (.blockProposal block) => some block
    | _ => none

theorem mem_broadcastBlocks {block : Block} (h : block ∈ broadcastBlocks n) :
    .broadcast (.blockProposal block) ∈ n.effects := by
  obtain ⟨e, he, heq⟩ := List.mem_filterMap.1 h
  split at heq
  · cases heq
    exact he
  · cases heq

/-- The block that validator 4 hands out. -/
def slotZeroBlock : Block :=
  ((afterFirst 4 .slotTick).bind fun n => (broadcastBlocks n).head?).getD firstBlock

theorem slotZero_run :
    (afterFirst 4 .slotTick).map (fun n => ((broadcastBlocks n).length, n.builtBlocks.length,
      n.knownBlocks.map (·.header.slot))) = some (1, 1, [0]) ∧
    (afterFirst 1 (.received 4 (.blockProposal slotZeroBlock))).map (fun n =>
      (n.builtBlocks.length, n.knownBlocks.map (·.header.slot), n.blocks.length)) =
        some (0, [0], 1) ∧
    (afterFirst 4 .slotTick).map (fun n => n.builtBlocks.map fun b =>
      blockBodyHash rollingHashing b == empty_hash) = some [false] := by
  decide +kernel

theorem slotZero_network : ∃ s, receiptNetwork.Reachable s ∧
    (s 4).knownBlocks.map (·.header.slot) = [0] ∧ (s 1).knownBlocks.map (·.header.slot) = [0] ∧
    (s 1).blocks.length = 1 ∧ ∃ block, builtBlocks s = {block} ∧
      blockBodyHash rollingHashing block ≠ empty_hash := by
  obtain ⟨hbuild, htake, hhash⟩ := slotZero_run
  obtain ⟨n₄, hn₄, h₄⟩ := Option.map_eq_some_iff.1 hbuild
  obtain ⟨n₁, hn₁, h₁⟩ := Option.map_eq_some_iff.1 htake
  simp only [hn₄, Option.map_some, Option.some.injEq] at hhash
  simp only [Prod.mk.injEq] at h₄ h₁
  have hsent : slotZeroBlock ∈ broadcastBlocks n₄ := by
    obtain ⟨block, hblock⟩ := List.length_eq_one_iff.1 h₄.1
    simp [slotZeroBlock, hn₄, hblock]
  have h₀ : receiptNetwork.Reachable fun i => Node.fresh (receiptEnv i) none := .fresh fun _ => none
  have hs₄ := h₀.handle 8 4 .slotTick trivial hn₄
  have hs₁ := hs₄.handle 8 1 (.received 4 (.blockProposal slotZeroBlock))
    (.inl (by simpa using mem_broadcastBlocks hsent))
    (by rw [Function.update_of_ne (by decide)]; exact hn₁)
  obtain ⟨block, hblock⟩ := List.length_eq_one_iff.1 h₄.2.1
  refine ⟨_, hs₁, by simpa using h₄.2.2, by simpa using h₁.2.1, by simpa using h₁.2.2, block, ?_, ?_⟩
  · ext b
    constructor
    · rintro ⟨i, hb⟩
      by_cases hi₁ : i = 1
      · subst hi₁
        simp [List.length_eq_zero_iff.1 h₁.1] at hb
      by_cases hi₄ : i = 4
      · subst hi₄
        simpa [hblock] using hb
      · rw [Function.update_of_ne hi₁, Function.update_of_ne hi₄] at hb
        cases hb
    · rintro rfl
      exact ⟨4, by simp [hblock]⟩
  · simpa [hblock] using hhash

/-- The block of slot 0 that validator 1 has is the one validator 4 has. -/
theorem slotZero_block_is_shared : ∃ s, receiptNetwork.Reachable s ∧
    ∃ b ∈ (s 4).knownBlocks, ∃ c ∈ (s 1).knownBlocks, b = c := by
  obtain ⟨s, hs, h₄, h₁, -⟩ := slotZero_network
  obtain ⟨b, hb, hslot⟩ := List.mem_map.1 (h₄ ▸ List.mem_singleton_self 0)
  obtain ⟨c, hc, hslot'⟩ := List.mem_map.1 (h₁ ▸ List.mem_singleton_self 0)
  exact ⟨s, hs, b, hb, c, hc, (slot_has_one_block receiptNetwork
    (fun _ => monotone_const) s hs).2 b ⟨4, .inl hb⟩ c ⟨1, .inl hc⟩ (hslot.trans hslot'.symm)⟩

/-- Validator 1 exports the block, and validator 2 accepts the export. -/
theorem slotZero_block_is_exported : ∃ s, receiptNetwork.Reachable s ∧ (s 1).blocks.length = 1 ∧
    ∃ chain ledger, (s 1).buildChainSnapshot (receiptEnv 1) = .ok chain ∧
      validateChainSnapshot (receiptEnv 2) chain = .ok ledger := by
  obtain ⟨s, hs, -, -, hlen, block, hbuilt, hhash⟩ := slotZero_network
  have hfree (i : ValidatorId) : CollisionFree (receiptEnv i).hashing (builtBlocks s) := by
    rw [hbuilt]
    refine ⟨?_, ?_⟩
    · rintro b rfl c rfl -
      exact ⟨rfl, rfl, rfl⟩
    · rintro b rfl
      exact hhash
  obtain ⟨-, chain, ledger, hchain, -, hvalid, -⟩ := exports_import_everywhere receiptNetwork
    (fun _ => .inr rfl) s hs hfree 1 2 (by rw [hlen]; decide)
  exact ⟨s, hs, hlen, chain, ledger, hchain, hvalid⟩

end HonestNetwork

end Entangrid
