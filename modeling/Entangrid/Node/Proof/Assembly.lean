import Entangrid.Lib.Reorder
import Entangrid.Node.Proof.CleanRestart
import Entangrid.Node.Proof.PlainBlocks

/-!
# Gossip in any order

Without `consensus_v2`, blocks come one by one, in any order and more than once. A block that comes
early is kept among the orphans and taken from there when its turn comes. So where the gossip is about
one chain on top of the tip, a node gets to the first block of that chain that has not come.

* `Assembles`: what of the chain is on the node's chain, what waits, and what is to come.
* `Assembles.acceptBlock_again`, `acceptBlock_next`, `acceptBlock_early`: what becomes of a block that
  is offered; `Assembled.gossiped`, `Assembled.aside`: what the events do.
* `gossip_in_any_order`: the node after a run.
-/

namespace Entangrid

open LedgerState
open Proc (Ends)

/-- A chain to put on top of the node's: valid, new and linked blocks that replay, with hashes of their
own, and no orphan of the node names one of them as its parent. -/
structure Offered (E : Env) (n : Node) (chain : List Block) : Prop where
  valid : ∀ b ∈ chain, validateReceivedBlock E b = .ok ()
  linked : Linked n.ledger.snapshot.tipHash chain
  applies : ∃ ledger, n.ledger.applyBlocks E.hashing E.crypto chain = .ok ledger
  new : ∀ b ∈ chain, n.knownBlock b.blockHash = none
  distinct : (n.ledger.snapshot.tipHash :: chain.map (·.blockHash)).Nodup
  orphans : ∀ orphan ∈ n.orphanBlocks,
    orphan.header.parentHash ∉ n.ledger.snapshot.tipHash :: chain.map (·.blockHash)

/-- Of the chain offered at `start`, `passed` is on the chain of the node and `held` among its orphans. -/
structure Assembles (E : Env) (start : Node) (chain : List Block) (seen : List HashBytes)
    (passed rest held : List Block) (n : Node) : Prop where
  holds : Reorder.Holds (·.blockHash) chain seen passed rest held
  applied : start.ledger.applyBlocks E.hashing E.crypto passed = .ok n.ledger
  blocks : n.blocks = start.blocks ++ passed
  pending : n.pendingCertifiedChildren = start.pendingCertifiedChildren
  orphans : n.orphanBlocks.Perm (start.orphanBlocks ++ held)
  inert : Inert n

/-- The node has put together what it can. -/
def Assembled (E : Env) (start : Node) (chain : List Block) (seen : List HashBytes) (n : Node) :
    Prop :=
  ∃ passed rest held, Assembles E start chain seen passed rest held n ∧ promotableOrphan n = none

section
variable {E : Env} {start n n' m : Node} {chain passed rest held : List Block}
  {seen seen' : List HashBytes} {block : Block} {errs : Error → Prop}

theorem Placed.promotableOrphan (h : Placed n.ledger n.shelves m) :
    promotableOrphan m = promotableOrphan n := by
  rw [Entangrid.promotableOrphan, h.orphanBlocks, h.ledger]
  rfl

theorem Offered.idle (h : Offered E n chain) : promotableOrphan n = none := by
  rw [promotableOrphan, List.findIdx?_eq_none_iff]
  intro orphan horphan
  have hparent := h.orphans orphan horphan
  rw [List.mem_cons, not_or] at hparent
  simpa using hparent.1

namespace Assembles

theorem of_inert (hinert : Inert n) : Assembles E n chain [] [] chain [] n where
  holds := .start
  applied := rfl
  blocks := by simp
  pending := rfl
  orphans := by simp
  inert := hinert

variable (h : Assembles E start chain seen passed rest held n)
include h

theorem of_placed (hm : Placed n.ledger n.shelves m) :
    Assembles E start chain seen passed rest held m where
  holds := h.holds
  applied := by rw [hm.ledger, h.applied]
  blocks := hm.blocks.trans h.blocks
  pending := hm.pending.trans h.pending
  orphans := by
    rw [hm.orphanBlocks]
    exact h.orphans
  inert := hm.inert

theorem tip : n.ledger.snapshot.tipHash = tipFrom start.ledger.snapshot.tipHash passed :=
  applyBlocks_tipHash h.applied

theorem mem_known : block ∈ n.knownBlocks ↔
    block ∈ start.knownBlocks ∨ block ∈ passed ∨ block ∈ held := by
  rw [Node.mem_knownBlocks, Node.mem_knownBlocks, h.blocks, h.pending, h.orphans.mem_iff,
    List.mem_append, List.mem_append]
  tauto

variable (hoffer : Offered E start chain)
include hoffer

/-- What has not come is not known. -/
theorem new (hblock : block ∈ chain) (hnew : block.blockHash ∉ seen) :
    ∀ b ∈ n.knownBlocks, b.blockHash ≠ block.blockHash := by
  intro b hb heq
  rcases h.mem_known.1 hb with hb | hb | hb
  · exact Node.knownBlock_eq_none.1 (hoffer.new block hblock) b hb heq
  · exact hnew (heq ▸ h.holds.came b hb)
  · exact hnew (heq ▸ (h.holds.mem_held.1 hb).2)

/-- The next block of the chain replays. -/
theorem applies {rest' : List Block} (hchain : chain = passed ++ block :: rest') : ∃ next,
    n.ledger.applyBlock E.hashing E.crypto block = .ok next ∧
      start.ledger.applyBlocks E.hashing E.crypto (passed ++ [block]) = .ok next := by
  obtain ⟨ledger, happlies⟩ := hoffer.applies
  rw [hchain, applyBlocks_append h.applied] at happlies
  obtain ⟨next, hnext, -⟩ := except_bind_ok.1 happlies
  refine ⟨next, hnext, ?_⟩
  rw [applyBlocks_append h.applied, applyBlocks, hnext]
  rfl

/-- An orphan that continues the chain is the first of the blocks to come. -/
theorem next_of_promotable {index : Nat} (hindex : promotableOrphan n = some index) :
    ∃ orphan rest' held', n.orphanBlocks[index]? = some orphan ∧ rest = orphan :: rest' ∧
      (orphan :: held').Perm held ∧ orphan.header.parentHash = n.ledger.snapshot.tipHash ∧
      (n.orphanBlocks.eraseIdx index).Perm (start.orphanBlocks ++ held') := by
  obtain ⟨hlt, hparent, -⟩ := List.findIdx?_eq_some_iff_getElem.1 hindex
  have hparent : n.orphanBlocks[index].header.parentHash = n.ledger.snapshot.tipHash := by
    simpa using hparent
  have hheld : n.orphanBlocks[index] ∈ held := by
    have hmem := h.orphans.subset (List.getElem_mem hlt)
    refine (List.mem_append.1 hmem).resolve_left fun hold => ?_
    -- the orphans from before do not name a block of the chain
    apply hoffer.orphans _ hold
    rw [hparent, h.tip]
    have htip : tipFrom start.ledger.snapshot.tipHash passed ∈
        start.ledger.snapshot.tipHash :: passed.map (·.blockHash) := HashChain.tipFrom_mem
    rw [h.holds.split, List.map_append, ← List.cons_append]
    exact List.mem_append_left _ htip
  obtain ⟨rest', hrest⟩ := h.holds.head_of_parent hoffer.linked hoffer.distinct
    (h.holds.mem_held.1 hheld).1 (hparent.trans h.tip)
  obtain ⟨xs, ys, hsplit⟩ := List.append_of_mem hheld
  have hperm : (n.orphanBlocks[index] :: (xs ++ ys)).Perm held := by
    rw [hsplit]
    exact List.perm_middle.symm
  refine ⟨n.orphanBlocks[index], rest', xs ++ ys, List.getElem?_eq_getElem hlt, hrest, hperm,
    hparent, ?_⟩
  have herased := (List.getElem_cons_eraseIdx_perm hlt).trans h.orphans
  exact (herased.trans ((hperm.symm.append_left _).trans List.perm_middle)).cons_inv

/-- A node with nothing to promote is at the first block that has not come. -/
theorem passed_eq (hidle : promotableOrphan n = none) :
    passed = Reorder.front (·.blockHash) chain seen := by
  refine h.holds.passed_eq fun b hb hseen => ?_
  obtain ⟨rest', hrest⟩ := List.head?_eq_some_iff.1 hb
  have hlinked := h.holds.linked_rest hoffer.linked
  rw [hrest] at hlinked
  have hparent : b.header.parentHash = n.ledger.snapshot.tipHash := hlinked.1.trans h.tip.symm
  have hheld : b ∈ held := h.holds.mem_held.2 ⟨by simp [hrest], hseen⟩
  have horphan : b ∈ n.orphanBlocks := h.orphans.mem_iff.2 (List.mem_append_right _ hheld)
  have hnone := List.findIdx?_eq_none_iff.1 hidle b horphan
  simp [hparent] at hnone

/-! ## Putting blocks on the chain -/

omit hoffer in
theorem extended {rest' held' : List Block} {next : LedgerState} {shelves : Shelves}
    (hholds : Reorder.Holds (·.blockHash) chain seen' (passed ++ [block]) rest' held')
    (happlied : start.ledger.applyBlocks E.hashing E.crypto (passed ++ [block]) = .ok next)
    (hn' : Placed next (shelves.extended block) n') (hblocks : shelves.blocks = n.blocks)
    (hpending : shelves.pendingCertifiedChildren = n.pendingCertifiedChildren)
    (horphans : shelves.orphanBlocks.Perm (start.orphanBlocks ++ held')) :
    Assembles E start chain seen' (passed ++ [block]) rest' held' n' where
  holds := hholds
  applied := by rw [happlied, hn'.ledger]
  blocks := by
    rw [hn'.blocks, ← List.append_assoc, ← h.blocks, ← hblocks]
    rfl
  pending := hn'.pending.trans (hpending.trans h.pending)
  orphans := by
    rw [hn'.orphanBlocks]
    exact horphans
  inert := hn'.inert

/-- An orphan that is taken out is not known any more. -/
theorem new_of_taken {orphan : Block} {rest' held' : List Block} {index : Nat}
    (hrest : rest = orphan :: rest')
    (hholds : Reorder.Holds (·.blockHash) chain seen (passed ++ [orphan]) rest' held')
    (herased : (n.orphanBlocks.eraseIdx index).Perm (start.orphanBlocks ++ held')) :
    ∀ b ∈ (n.shelves.withoutOrphan index).knownBlocks, b.blockHash ≠ orphan.blockHash := by
  have hsplit : chain = passed ++ orphan :: rest' := hrest ▸ h.holds.split
  have hnodup := (List.nodup_cons.1 hoffer.distinct).2
  intro b hb
  have hknown : b ∈ start.knownBlocks ∨ b ∈ passed ∨ b ∈ held' := by
    have hb : b ∈ n.blocks ++ n.pendingCertifiedChildren ++ n.orphanBlocks.eraseIdx index := hb
    rw [List.mem_append, List.mem_append, h.blocks, h.pending, herased.mem_iff, List.mem_append,
      List.mem_append] at hb
    rw [Node.mem_knownBlocks]
    tauto
  rcases hknown with hb | hb | hb
  · apply Node.knownBlock_eq_none.1 (hoffer.new orphan _) b hb
    simp [hsplit]
  · exact Reorder.key_ne_of_split hnodup hsplit (.inl hb)
  · exact Reorder.key_ne_of_split hnodup hsplit (.inr (hholds.mem_held.1 hb).1)

section
variable (hv1 : E.v2 = false) (hvalidators : E.genesis.validators ≠ [])
include hv1 hvalidators

/-- The orphans whose turn has come get on the chain one after the other. -/
theorem promotes (fuel rounds : Nat) (hrounds : rest.length < rounds) :
    Ends (Assembled E start chain seen) errs (tryPromoteOrphans E (fuel + 1) rounds) n := by
  induction rounds generalizing passed rest held n with
  | zero => omega
  | succ rounds ih =>
    cases hindex : promotableOrphan n with
    | none =>
      refine Ends.read ?_
      rw [hindex]
      exact .pure ⟨passed, rest, held, h, hindex⟩
    | some index =>
      obtain ⟨orphan, rest', held', horphan, hrest, hheld, hparent, herased⟩ :=
        h.next_of_promotable hoffer hindex
      have hsplit : chain = passed ++ orphan :: rest' := hrest ▸ h.holds.split
      have hholds := h.holds.hand_on hrest hheld
      have hvalid := hoffer.valid orphan (by simp [hsplit])
      obtain ⟨next, happly, happlied⟩ := h.applies hoffer hsplit
      obtain ⟨n', hrun, hn'⟩ := (Placed.of_node h.inert).promoteOrphan_extends hvalidators hv1
        horphan (h.new_of_taken hoffer hrest hholds herased) hvalid hparent happly fuel
      have hnext := h.extended hholds happlied hn' rfl rfl herased
      have hlength : rest'.length < rounds := by
        rw [hrest, List.length_cons] at hrounds
        omega
      refine Ends.read ?_
      rw [hindex]
      exact .after hrun (ih hnext hlength)

end

/-! ## Offering blocks -/

section
variable (hm : Placed n.ledger n.shelves m) (hblock : block ∈ chain)
include hm hblock

omit hoffer in
/-- What has come is known. -/
theorem acceptBlock_again (hseen : block.blockHash ∈ seen) (fuel : Nat) :
    (acceptBlock E fuel block false).run m = .ok .duplicate m := by
  have hknown : (m.knownBlock block.blockHash).isSome = true := by
    by_contra hnone
    have hmem := (h.of_placed hm).mem_known.2 (.inr (h.holds.mem hblock hseen))
    exact Node.knownBlock_eq_none.1 (by simpa using hnone) block hmem rfl
  unfold acceptBlock
  rw [Proc.run_get_bind, if_pos hknown]
  rfl

variable (hv1 : E.v2 = false) (hvalidators : E.genesis.validators ≠ [])
  (hseen : block.blockHash ∉ seen)
include hv1 hvalidators hseen

/-- The next block gets on the chain, and whatever waited for it after it. -/
theorem acceptBlock_next (hparent : block.header.parentHash = n.ledger.snapshot.tipHash) {fuel : Nat}
    (hfuel : chain.length < fuel + 1) : ∃ m',
    (acceptBlock E (fuel + 1) block false).run m = .ok .accepted m' ∧
      Ends (Assembled E start chain (block.blockHash :: seen)) errs
        (tryPromoteOrphans E (fuel + 1) (fuel + 1)) m' := by
  have hmem := h.holds.mem_rest hblock hseen
  obtain ⟨rest', hrest⟩ := h.holds.head_of_parent hoffer.linked hoffer.distinct hmem
    (hparent.trans h.tip)
  have hsplit : chain = passed ++ block :: rest' := hrest ▸ h.holds.split
  have hcome := h.holds.wait (List.nodup_cons.1 hoffer.distinct).2 hmem hseen
  obtain ⟨next, happly, happlied⟩ := h.applies hoffer hsplit
  obtain ⟨m', hrun, hm'⟩ := hm.acceptBlock_extends hvalidators hv1 (h.new hoffer hblock hseen)
    (hoffer.valid block hblock) hparent happly fuel
  have hnext := h.extended (hcome.hand_on hrest (List.Perm.refl _)) happlied hm' rfl rfl h.orphans
  have hlength : rest'.length < fuel + 1 := by
    rw [hsplit, List.length_append, List.length_cons] at hfuel
    omega
  exact ⟨m', hrun, hnext.promotes hoffer hv1 hvalidators fuel (fuel + 1) hlength⟩

/-- Any other block waits, and nothing gets on the chain. -/
theorem acceptBlock_early (hidle : promotableOrphan n = none)
    (hparent : block.header.parentHash ≠ n.ledger.snapshot.tipHash) (fuel : Nat) : ∃ m',
    (acceptBlock E fuel block false).run m = .ok .orphan m' ∧
      Assembled E start chain (block.blockHash :: seen) m' := by
  have hmem := h.holds.mem_rest hblock hseen
  have htip : n.ledger.snapshot.tipHash ≠ block.blockHash := by
    rw [h.tip]
    exact h.holds.tip_ne hoffer.distinct hmem
  obtain ⟨m', hrun, hm'⟩ := hm.acceptBlock_waits hvalidators hv1 (h.new hoffer hblock hseen)
    (hoffer.valid block hblock) hparent htip fuel
  have horphans : m'.orphanBlocks = n.orphanBlocks ++ [block] := hm'.orphanBlocks
  refine ⟨m', hrun, passed, rest, block :: held,
    { holds := h.holds.wait (List.nodup_cons.1 hoffer.distinct).2 hmem hseen
      applied := by rw [h.applied, hm'.ledger]
      blocks := hm'.blocks.trans h.blocks
      pending := hm'.pending.trans h.pending
      orphans := ?_
      inert := hm'.inert }, ?_⟩
  · rw [horphans]
    refine (h.orphans.append_right [block]).trans ?_
    rw [List.append_assoc]
    exact List.perm_append_comm.append_left _
  · -- the block does not continue the chain either
    unfold promotableOrphan at hidle ⊢
    rw [horphans, hm'.ledger, List.findIdx?_eq_none_iff]
    intro b hb
    rcases List.mem_append.1 hb with hb | hb
    · exact List.findIdx?_eq_none_iff.1 hidle b hb
    · rw [List.mem_singleton.1 hb]
      simpa using hparent

end

end Assembles

/-! ## Events -/

namespace Assembled

theorem of_footing (h : Assembled E start chain seen n) (hfooting : n'.footing = n.footing) :
    Assembled E start chain seen n' := by
  obtain ⟨passed, rest, held, h, hidle⟩ := h
  have hn' := (Placed.of_node h.inert).keep hfooting
  exact ⟨passed, rest, held, h.of_placed hn', hn'.promotableOrphan.trans hidle⟩

theorem congr (h : Assembled E start chain seen n) (hmem : ∀ k, k ∈ seen ↔ k ∈ seen') :
    Assembled E start chain seen' n := by
  obtain ⟨passed, rest, held, h, hidle⟩ := h
  exact ⟨passed, rest, held, { h with holds := h.holds.congr hmem }, hidle⟩

variable (hv1 : E.v2 = false)
include hv1

/-- An event that brings no block leaves the node where it is, unless it builds one. -/
theorem aside (h : Assembled E start chain seen n) {event : Event}
    (haside : event.bringsBlocks = false) {fuel : Nat}
    (hrun : ((handleEvent E fuel event).run n).state? = some n')
    (hbuilt : n'.builtBlocks = n.builtBlocks) : Assembled E start chain seen n' := by
  apply h.of_footing
  obtain ⟨_, _, _, h, hidle⟩ := h
  exact ((handleEvent_rests hv1 fuel haside n).of_state? hrun).footing hbuilt ⟨h.inert, hidle⟩

variable (hoffer : Offered E start chain) (hvalidators : E.genesis.validators ≠ [])
  (hsigns : SignsCorrectly E)
include hoffer hvalidators hsigns

/-- A gossiped block of the chain is handled to the end, and counts as come. -/
theorem gossiped (h : Assembled E start chain seen n) (hblock : block ∈ chain) (sender : ValidatorId)
    {fuel : Nat} (hfuel : chain.length < fuel) :
    Ends (Assembled E start chain (block.blockHash :: seen)) (fun _ => False)
      (handleEvent E fuel (.received sender (.blockProposal block))) n := by
  obtain ⟨passed, rest, held, h, hidle⟩ := h
  obtain ⟨fuel, rfl⟩ : ∃ f, fuel = f + 1 := ⟨fuel - 1, by omega⟩
  refine (Placed.of_node h.inert).handleEvent_block_ends hsigns (fun _ _ hf h => h.of_footing hf)
    sender _ fun m hm => ?_
  by_cases hseen : block.blockHash ∈ seen
  · refine ⟨.duplicate, m, h.acceptBlock_again hm hblock hseen _, ?_⟩
    show Assembled E start chain (block.blockHash :: seen) m
    have hagain := h.holds.again hseen
    exact ⟨passed, rest, held, { h.of_placed hm with holds := hagain },
      hm.promotableOrphan.trans hidle⟩
  by_cases hparent : block.header.parentHash = n.ledger.snapshot.tipHash
  · obtain ⟨m', hrun, hm'⟩ :=
      h.acceptBlock_next hoffer hm hblock hv1 hvalidators hseen hparent hfuel
    exact ⟨.accepted, m', hrun, hm'⟩
  · obtain ⟨m', hrun, hm'⟩ :=
      h.acceptBlock_early hoffer hm hblock hv1 hvalidators hseen hidle hparent (fuel + 1)
    exact ⟨.orphan, m', hrun, hm'⟩

end Assembled

/-! ## Runs -/

theorem Write.builtBlocks_eq {O : Occasion} (hlive : O.live = ∅) (h : Write E O n n') :
    n'.builtBlocks = n.builtBlocks := by
  cases h with
  | quiet hquiet =>
    have heffects : n'.effects = n.effects := congrArg Watched.effects hquiet.watched
    rw [Node.builtBlocks, heffects, Node.builtBlocks]
  | note effect hnote =>
    cases effect with
    | blockBuilt block => cases hnote
    | _ => rfl
  | propose slot block hslot =>
    rw [hlive] at hslot
    cases hslot
  | _ => rfl

/-- Blocks are built on ticks. -/
theorem Reachable.builtBlocks_received {P : Node → Event → Prop} (hn : Reachable E P n) {fuel : Nat}
    {sender : ValidatorId} {payload : ProtocolMessage}
    (hrun : ((handleEvent E fuel (.received sender payload)).run n).state? = some n') :
    n'.builtBlocks = n.builtBlocks := by
  have hchain := hn.writes hrun
  clear hrun
  induction hchain with
  | refl => rfl
  | tail _ hwrite ih => exact (hwrite.builtBlocks_eq rfl).trans ih

/-- The hashes of the blocks that the events gossip. -/
def gossipedHashes (events : List Event) : List HashBytes :=
  (events.flatMap (·.gossiped)).map (·.blockHash)

/-- A peer gossips a block of the chain. -/
def Event.Gossips (chain : List Block) (event : Event) : Prop :=
  ∃ sender, ∃ block ∈ chain, event = .received sender (.blockProposal block)

theorem Event.gossiped_of_aside {event : Event} (h : event.bringsBlocks = false) :
    event.gossiped = [] := by
  cases event with
  | received sender payload =>
    cases payload with
    | blockProposal => cases h
    | _ => rfl
  | _ => rfl

namespace Assembled

variable (hv1 : E.v2 = false) (hoffer : Offered E start chain)
  (hvalidators : E.genesis.validators ≠ []) (hsigns : SignsCorrectly E) {fuel : Nat}
  (hfuel : chain.length < fuel) {events : List Event}
include hv1 hoffer hvalidators hsigns hfuel

/-- What the events bring counts as come. -/
theorem run (h : Assembled E start chain seen n)
    (hevents : ∀ event ∈ events, event.bringsBlocks = false ∨ event.Gossips chain)
    (hrun : runEvents E fuel events n = some n') (hbuilt : n'.builtBlocks = n.builtBlocks) :
    Assembled E start chain (gossipedHashes events ++ seen) n' := by
  induction events generalizing seen n with
  | nil =>
    cases hrun
    exact h
  | cons event events ih =>
    obtain ⟨m, hm, hrun⟩ := Option.bind_eq_some_iff.1 hrun
    obtain ⟨hfirst, hrest⟩ := List.forall_mem_cons.1 hevents
    obtain ⟨hbuilt, hbuilt'⟩ := Node.builtBlocks_between (handleEvent_effects_suffix fuel event hm)
      (runEvents_effects_suffix hrun) hbuilt
    rcases hfirst with haside | ⟨sender, block, hblock, rfl⟩
    · have hsame : gossipedHashes (event :: events) = gossipedHashes events := by
        simp [gossipedHashes, Event.gossiped_of_aside haside]
      rw [hsame]
      exact ih (h.aside hv1 haside hm hbuilt) hrest hrun hbuilt'
    · obtain ⟨_, m', hok, hm'⟩ :=
        (h.gossiped hv1 hoffer hvalidators hsigns hblock sender hfuel).returns
      rw [hok] at hm
      obtain rfl := Option.some.inj hm
      refine (ih hm' hrest hrun hbuilt').congr fun k => ?_
      simp only [gossipedHashes, Event.gossiped, List.flatMap_cons, List.singleton_append,
        List.map_cons, List.mem_append, List.mem_cons]
      tauto

/-- Gossip is handled to the end. -/
theorem runs (hn : Reachable E AnyEvent n) (h : Assembled E start chain seen n)
    (hevents : ∀ event ∈ events, event.Gossips chain) : ∃ n',
    runEvents E fuel events n = some n' ∧ n'.builtBlocks = n.builtBlocks := by
  induction events generalizing seen n with
  | nil => exact ⟨n, rfl, rfl⟩
  | cons event events ih =>
    obtain ⟨⟨sender, block, hblock, rfl⟩, hrest⟩ := List.forall_mem_cons.1 hevents
    obtain ⟨_, m, hok, hm⟩ :=
      (h.gossiped hv1 hoffer hvalidators hsigns hblock sender hfuel).returns
    have hstate : ((handleEvent E fuel (.received sender (.blockProposal block))).run n).state? =
        some m := by
      rw [hok]
      rfl
    obtain ⟨n', hrun, hbuilt⟩ := ih (.handle fuel _ hn trivial hstate) hm hrest
    refine ⟨n', Option.bind_eq_some_iff.2 ⟨m, hstate, hrun⟩, ?_⟩
    rw [hbuilt, hn.builtBlocks_received hstate]

end Assembled

end

/-- **Gossip in any order.** A node without `consensus_v2` is offered a chain on top of its tip, and
handles events that bring blocks of this chain, in any order and as often as they like, or no blocks.
Unless it builds a block itself, the node ends on the part of the chain before the first block that has
not come, and the blocks that came of the other part wait among its orphans; and where all events are
gossip of the chain, they are all handled and no block is built. -/
theorem gossip_in_any_order (E : Env) (hv1 : E.v2 = false) (hvalidators : E.genesis.validators ≠ [])
    (hsigns : SignsCorrectly E) (n : Node) (hn : Reachable E AnyEvent n) (chain : List Block)
    (hoffer : Offered E n chain) (fuel : Nat) (hfuel : chain.length < fuel) (events : List Event)
    (hevents : ∀ event ∈ events, event.bringsBlocks = false ∨ event.Gossips chain) :
    (∀ n', runEvents E fuel events n = some n' → n'.builtBlocks = n.builtBlocks →
      ∃ passed rest, chain = passed ++ rest ∧
        passed = Reorder.front (·.blockHash) chain (gossipedHashes events) ∧
        n'.blocks = n.blocks ++ passed ∧
        n.ledger.applyBlocks E.hashing E.crypto passed = .ok n'.ledger ∧
        n'.orphanBlocks.Perm
          (n.orphanBlocks ++ rest.filter (·.blockHash ∈ gossipedHashes events))) ∧
    ((∀ event ∈ events, event.Gossips chain) → ∃ n',
      runEvents E fuel events n = some n' ∧ n'.builtBlocks = n.builtBlocks) := by
  have hstart : Assembled E n chain [] n :=
    ⟨[], chain, [], .of_inert (hn.inert hv1 hvalidators), hoffer.idle⟩
  refine ⟨fun n' hrun hbuilt => ?_, hstart.runs hv1 hoffer hvalidators hsigns hfuel hn⟩
  have hend := hstart.run hv1 hoffer hvalidators hsigns hfuel hevents hrun hbuilt
  rw [List.append_nil] at hend
  obtain ⟨passed, rest, held, h, hidle'⟩ := hend
  exact ⟨passed, rest, h.holds.split, h.passed_eq hoffer hidle', h.blocks, h.applied,
    h.orphans.trans (h.holds.held.append_left _)⟩

/-! ## A run

Validator 1 hears of the second block, of the first one and of the second one again. -/

open HonestNetwork (plainEnv)

theorem sample_chain_offered :
    Offered (plainEnv 1) (.fresh (plainEnv 1) none) [firstBlock, secondBlock] where
  valid b hb := by
    have hvalid : validateReceivedBlock (plainEnv 1) firstBlock = .ok () ∧
        validateReceivedBlock (plainEnv 1) secondBlock = .ok () := by decide +kernel
    simp only [List.mem_cons, List.not_mem_nil, or_false] at hb
    rcases hb with rfl | rfl
    · exact hvalid.1
    · exact hvalid.2
  linked := ⟨rfl, rfl, trivial⟩
  applies := by
    have hreplay : ((LedgerState.fromGenesis sampleGenesis).applyBlocks rollingHashing sampleCrypto
        [firstBlock, secondBlock]).toOption.isSome = true := by decide +kernel
    cases happlies : (LedgerState.fromGenesis sampleGenesis).applyBlocks rollingHashing sampleCrypto
        [firstBlock, secondBlock] with
    | ok ledger => exact ⟨ledger, happlies⟩
    | error e =>
      rw [happlies] at hreplay
      cases hreplay
  new b _ := by simp [Node.knownBlock, Node.fresh, findBlock]
  distinct := by decide +kernel
  orphans := by simp [Node.fresh]

def reorderedGossip : List Event :=
  [.received 2 (.blockProposal secondBlock), .received 4 (.blockProposal firstBlock),
    .received 3 (.blockProposal secondBlock)]

theorem reordered_gossip_assembles : ∃ n,
    runEvents (plainEnv 1) 3 reorderedGossip (.fresh (plainEnv 1) none) = some n ∧
      n.blocks = [firstBlock, secondBlock] ∧ n.orphanBlocks = [] := by
  have hgossip : ∀ event ∈ reorderedGossip, event.Gossips [firstBlock, secondBlock] := by
    simp [reorderedGossip, Event.Gossips]
  obtain ⟨hends, hruns⟩ := gossip_in_any_order (plainEnv 1) rfl (by decide)
    ⟨(sample_signer (by decide)).signs, (sample_signer (by decide)).verifies⟩
    (.fresh (plainEnv 1) none) (.fresh none) [firstBlock, secondBlock] sample_chain_offered 3 (by decide)
    reorderedGossip fun event hevent => .inr (hgossip event hevent)
  obtain ⟨n, hrun, hbuilt⟩ := hruns hgossip
  obtain ⟨passed, rest, hsplit, hfront, hblocks, -, horphans⟩ := hends n hrun hbuilt
  have hpassed : passed = [firstBlock, secondBlock] := by
    rw [hfront]
    simp [Reorder.front, gossipedHashes, reorderedGossip, Event.gossiped]
  rw [hpassed, List.self_eq_append_right] at hsplit
  rw [hpassed] at hblocks
  rw [hsplit] at horphans
  exact ⟨n, hrun, hblocks, List.Perm.eq_nil horphans⟩

end Entangrid
