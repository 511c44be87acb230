import Entangrid.Node.Proof.Branch
import Entangrid.Sample

/-!
# The chain to a tip

`build_chain_to_tip` walks back from a hash over whatever the three block lists hold, and then checks
the numbers from the front. It finds the chain to the hash that a list of blocks may be declared to be
(`ChainTo`), apart from chains that pass a block with the empty hash, at which the walk stops.

* `chainTo_iff`: such a chain is a numbered path of parent links.
* `buildChainToTip_eq_none_iff`: nothing is returned exactly if the links from the hash go round, break
  off, or have a gap in the numbers.
* `built_chain_is_chain_to_tip`: all that the function promises, with the number of its rounds.
-/

namespace Entangrid

open Relation

namespace Node

variable {n : Node} {tip : HashBytes} {chain : List Block}

/-! ## Chains by their positions -/

/-- Known blocks from a child of the empty hash to `tip`, each on the one before, numbered from 1. -/
structure ChainTo (n : Node) (tip : HashBytes) (chain : List Block) : Prop where
  known : ∀ b ∈ chain, b ∈ n.knownBlocks
  first : ∀ b, chain.head? = some b → b.header.parentHash = empty_hash
  next : ∀ (i : Nat) (b c : Block), chain[i]? = some b → chain[i + 1]? = some c →
    c.header.parentHash = b.blockHash
  numbers : ∀ (i : Nat) (b : Block), chain[i]? = some b → b.header.blockNumber = i + 1
  last : (chain.getLast?.map (·.blockHash)).getD empty_hash = tip

theorem linked_of_positions {start : HashBytes}
    (hfirst : ∀ b, chain.head? = some b → b.header.parentHash = start)
    (hnext : ∀ (i : Nat) (b c : Block), chain[i]? = some b → chain[i + 1]? = some c →
      c.header.parentHash = b.blockHash) : Linked start chain := by
  induction chain generalizing start with
  | nil => trivial
  | cons b rest ih =>
    refine ⟨hfirst b rfl, ih (fun c hc => ?_) fun i c d hc hd => hnext (i + 1) c d hc hd⟩
    exact hnext 0 b c rfl (by simpa [List.head?_eq_getElem?] using hc)

theorem parent_of_linked {start : HashBytes} (h : Linked start chain) :
    (∀ b, chain.head? = some b → b.header.parentHash = start) ∧
      ∀ (i : Nat) (b c : Block), chain[i]? = some b → chain[i + 1]? = some c →
        c.header.parentHash = b.blockHash := by
  induction chain generalizing start with
  | nil => simp
  | cons a rest ih =>
    obtain ⟨hfirst, hnext⟩ := ih h.2
    refine ⟨fun b hb => ?_, fun i b c hb hc => ?_⟩
    · obtain rfl : a = b := by simpa using hb
      exact h.1
    · cases i with
      | zero =>
        obtain rfl : a = b := by simpa using hb
        exact hfirst c (by simpa [List.head?_eq_getElem?] using hc)
      | succ i => exact hnext i b c hb hc

/-- A chain of blocks with hashes of their own is a numbered path. -/
theorem chainTo_iff (h : n.HashesIdentify) :
    (n.ChainTo tip chain ∧ ∀ b ∈ chain, b.blockHash ≠ empty_hash) ↔
      n.ParentPath tip chain ∧ numberedFrom empty_hash 1 chain = true := by
  constructor
  · rintro ⟨hchain, hempty⟩
    have hlinked := linked_of_positions hchain.first hchain.next
    have htip : tipFrom empty_hash chain = tip :=
      (HashChain.getLast?_map_getD chain).symm.trans hchain.last
    subst htip
    refine ⟨.of_linkedFrom hlinked fun b hb => ⟨hempty b hb, h.blockByHash (hchain.known b hb)⟩,
      numberedFrom_of_linked hlinked fun i b hb => ?_⟩
    rw [hchain.numbers i b hb, Nat.add_comm]
  · rintro ⟨hpath, hnumbered⟩
    have hmem (b : Block) (hb : b ∈ chain) := hpath.mem blockHash_of_blockByHash hb
    obtain ⟨hfirst, hnext⟩ := parent_of_linked (linked_of_numberedFrom hnumbered)
    refine ⟨{ known := ?_, first := hfirst, next := hnext, numbers := ?_, last := ?_ },
      fun b hb => (hmem b hb).1⟩
    · intro b hb
      exact (blockByHash_eq_some (hmem b hb).2.1).1
    · intro i b hb
      rw [blockNumber_of_numberedFrom hnumbered hb, Nat.add_comm]
    · exact (HashChain.getLast?_map_getD chain).trans (hpath.tipFrom_eq blockHash_of_blockByHash)

/-! ## Where there is no chain -/

/-- A known block with the hash `h` names the parent `p`. -/
def ParentOf (n : Node) (h p : HashBytes) : Prop :=
  h ≠ empty_hash ∧ ∃ b ∈ n.knownBlocks, b.blockHash = h ∧ b.header.parentHash = p

/-- The parents of `tip` go round. -/
def HasCycle (n : Node) (tip : HashBytes) : Prop :=
  ∃ h, ReflTransGen n.ParentOf tip h ∧ TransGen n.ParentOf h h

/-- The parents of `tip` lead to a hash no known block has. -/
def Dangles (n : Node) (tip : HashBytes) : Prop :=
  ∃ h, ReflTransGen n.ParentOf tip h ∧ h ≠ empty_hash ∧ ∀ b ∈ n.knownBlocks, b.blockHash ≠ h

/-- A block among the parents of `tip` is not numbered after its own parent. -/
def HasGap (n : Node) (tip : HashBytes) : Prop :=
  ∃ b ∈ n.knownBlocks, b.blockHash ≠ empty_hash ∧ ReflTransGen n.ParentOf tip b.blockHash ∧
    (b.header.parentHash = empty_hash ∧ b.header.blockNumber ≠ 1 ∨
      ∃ p ∈ n.knownBlocks, p.blockHash ≠ empty_hash ∧ p.blockHash = b.header.parentHash ∧
        b.header.blockNumber ≠ p.header.blockNumber + 1)

theorem links_eq (h : n.HashesIdentify) :
    BackWalk.Links n.blockByHash (·.header.parentHash) empty_hash = n.ParentOf := by
  funext k p
  refine propext (and_congr_right fun _ => ⟨fun ⟨b, hb, hparent⟩ => ?_, fun ⟨b, hb, hk, hparent⟩ => ?_⟩)
  · obtain ⟨hmem, hhash⟩ := blockByHash_eq_some hb
    exact ⟨b, hmem, hhash, hparent⟩
  · subst hk
    exact ⟨b, h.blockByHash hb, hparent⟩

theorem numberedFrom_append_singleton {start : HashBytes} {height : Nat} {b : Block} :
    numberedFrom start height (chain ++ [b]) = true ↔ numberedFrom start height chain = true ∧
      b.header.parentHash = tipFrom start chain ∧ b.header.blockNumber = height + chain.length := by
  induction chain generalizing start height with
  | nil => simp [numberedFrom]
  | cons a rest ih =>
    simp only [List.cons_append, numberedFrom, Bool.and_eq_true, ih, List.length_cons,
      HashChain.tipFrom_cons, and_assoc]
    rw [show height + 1 + rest.length = height + (rest.length + 1) by omega]

theorem numberedFrom_of_append {start : HashBytes} {height : Nat} {front : List Block}
    (hfront : front <+: chain) (h : numberedFrom start height chain = true) :
    numberedFrom start height front = true := by
  induction front generalizing start height chain with
  | nil => rfl
  | cons a front ih =>
    obtain ⟨rest, rfl⟩ := hfront
    simp only [List.cons_append, numberedFrom, Bool.and_eq_true] at h ⊢
    exact ⟨h.1, ih (List.prefix_append _ _) h.2⟩

/-- In a numbered path every block has the number after its parent's. -/
theorem not_hasGap_of_numbered (h : n.HashesIdentify) (hpath : n.ParentPath tip chain)
    (hnumbered : numberedFrom empty_hash 1 chain = true) : ¬n.HasGap tip := by
  rintro ⟨b, hb, hne, hreaches, hgap⟩
  rw [← links_eq h] at hreaches
  obtain ⟨front, hfront, hbegins⟩ := hpath.of_reaches hreaches
  obtain ⟨front', rfl, hparent⟩ := hfront.of_find hne (h.blockByHash hb)
  obtain ⟨hnumbered', -, hnumber⟩ :=
    numberedFrom_append_singleton.1 (numberedFrom_of_append hbegins hnumbered)
  rcases hgap with ⟨hempty, hwrong⟩ | ⟨p, hp, hpne, hphash, hwrong⟩
  · rw [hempty] at hparent
    rw [hparent.nil_of_root, List.length_nil] at hnumber
    exact hwrong hnumber
  · rw [← hphash] at hparent
    obtain ⟨front'', rfl, -⟩ := hparent.of_find hpne (h.blockByHash hp)
    have hpnumber := (numberedFrom_append_singleton.1 hnumbered').2.2
    rw [List.length_append, List.length_singleton] at hnumber
    omega

/-- A path without a gap is numbered. -/
theorem numbered_of_not_hasGap (hpath : n.ParentPath tip chain) (hgap : ¬n.HasGap tip) :
    numberedFrom empty_hash 1 chain = true := by
  induction hpath with
  | root => rfl
  | @snoc k b front hne hfind hfront ih =>
    obtain ⟨hb, rfl⟩ := blockByHash_eq_some hfind
    have hparent : n.ParentOf b.blockHash b.header.parentHash := ⟨hne, b, hb, rfl, rfl⟩
    have hrest : numberedFrom empty_hash 1 front = true := by
      refine ih fun ⟨c, hc, hcne, hreaches, hwrong⟩ => hgap ⟨c, hc, hcne, ?_, hwrong⟩
      exact .head hparent hreaches
    refine numberedFrom_append_singleton.2
      ⟨hrest, (hfront.tipFrom_eq blockHash_of_blockByHash).symm, ?_⟩
    by_contra hnumber
    refine hgap ⟨b, hb, hne, .refl, ?_⟩
    generalize hphash : b.header.parentHash = p at hfront
    cases hfront with
    | root => exact .inl ⟨rfl, by simpa using hnumber⟩
    | @snoc _ c front' hpne hpfind _ =>
      obtain ⟨hc, rfl⟩ := blockByHash_eq_some hpfind
      have hcnumber := (numberedFrom_append_singleton.1 hrest).2.2
      refine .inr ⟨c, hc, hpne, rfl, fun heq => hnumber ?_⟩
      rw [heq, hcnumber, List.length_append, List.length_singleton]
      omega

/-- **No chain, exactly where the links go round, break off or have a gap.** -/
theorem buildChainToTip_eq_none_iff (h : n.HashesIdentify) :
    n.buildChainToTip tip = none ↔ n.HasCycle tip ∨ n.Dangles tip ∨ n.HasGap tip := by
  have hpath : (¬∃ chain, n.ParentPath tip chain) ↔ n.HasCycle tip ∨ n.Dangles tip := by
    rw [BackWalk.not_exists_path_iff mem_hashes_of_blockByHash, links_eq h]
    have hmissing (k : HashBytes) : n.blockByHash k = none ↔ ∀ b ∈ n.knownBlocks, b.blockHash ≠ k := by
      simp [blockByHash, findBlock_eq_none]
    simp only [hmissing, HasCycle, Dangles, ← exists_or, ← and_or_left]
  have hnone : n.buildChainToTip tip = none ↔ ¬∃ chain, n.buildChainToTip tip = some chain := by
    rw [← Option.not_isSome_iff_eq_none, Option.isSome_iff_exists]
  rw [← or_assoc, ← hpath, hnone]
  simp only [buildChainToTip_iff]
  constructor
  · intro hbuilt
    by_cases hexists : ∃ chain, n.ParentPath tip chain
    · obtain ⟨chain, hchain⟩ := hexists
      refine .inr (by_contra fun hgap => hbuilt ⟨chain, hchain, ?_⟩)
      exact numbered_of_not_hasGap hchain hgap
    · exact .inl hexists
  · rintro (hexists | hgap) ⟨chain, hchain, hnumbered⟩
    · exact hexists ⟨chain, hchain⟩
    · exact not_hasGap_of_numbered h hchain hnumbered hgap

/-! ## The loop -/

/-- The `while` loop of `build_chain_to_tip` from a hash, with the hashes it has visited and the blocks
it has collected: the number of its rounds, and what it leaves the function with. -/
abbrev LoopReturns (n : Node) : HashBytes → List HashBytes → List Block → Nat →
    Option (List Block) → Prop :=
  BackWalk.Returns n.blockByHash (·.header.parentHash) empty_hash

/-- **The loop stops** within a round for every known block. -/
theorem loopReturns (n : Node) (tip : HashBytes) : ∃ rounds ≤ n.knownBlocks.length, ∃ walked,
    n.LoopReturns tip [] [] rounds walked ∧
      n.buildChainToTip tip = walked.filter (numberedFrom empty_hash 1) := by
  obtain ⟨rounds, hrounds, hreturns⟩ := BackWalk.returns_of_fuel (·.header.parentHash)
    empty_hash tip [] [] (mem_hashes_of_blockByHash (n := n)) List.nodup_nil (List.nil_subset _)
    (n.knownBlocks.length + 1) (by simp)
  rw [← walkToGenesis_eq_walk] at hreturns
  refine ⟨rounds, by simpa using hrounds, _, hreturns, ?_⟩
  unfold buildChainToTip
  cases n.walkToGenesis (n.knownBlocks.length + 1) tip [] [] with
  | none => rfl
  | some walked => simp [Option.filter]

end Node

/-- **The chain to a tip.** Where blocks with one hash are one block, `build_chain_to_tip` leaves its
loop within a round for every known block; it returns the list of known blocks that lead from the empty
hash to the tip by parents and numbers, if there is one without a block of the empty hash; there is no
other, and it has no hash twice; to the empty hash it is empty; and nothing is returned exactly if the
parents go round, break off or have a gap in their numbers. -/
theorem built_chain_is_chain_to_tip (n : Node) (h : n.HashesIdentify) (tip : HashBytes) :
    (∃ rounds ≤ n.knownBlocks.length, ∃ walked, n.LoopReturns tip [] [] rounds walked ∧
      n.buildChainToTip tip = walked.filter (numberedFrom empty_hash 1)) ∧
    (∀ chain, n.buildChainToTip tip = some chain ↔
      n.ChainTo tip chain ∧ ∀ b ∈ chain, b.blockHash ≠ empty_hash) ∧
    (∀ xs ys, n.ChainTo tip xs → (∀ b ∈ xs, b.blockHash ≠ empty_hash) →
      n.ChainTo tip ys → (∀ b ∈ ys, b.blockHash ≠ empty_hash) → xs = ys) ∧
    (∀ chain, n.buildChainToTip tip = some chain → (chain.map (·.blockHash)).Nodup) ∧
    n.buildChainToTip empty_hash = some [] ∧
    (n.buildChainToTip tip = none ↔ n.HasCycle tip ∨ n.Dangles tip ∨ n.HasGap tip) := by
  have hiff (chain : List Block) : n.buildChainToTip tip = some chain ↔
      n.ChainTo tip chain ∧ ∀ b ∈ chain, b.blockHash ≠ empty_hash :=
    Node.buildChainToTip_iff.trans (Node.chainTo_iff h).symm
  refine ⟨n.loopReturns tip, hiff, fun xs ys hxs hxempty hys hyempty => ?_,
    fun chain hchain => (Node.buildChainToTip_distinct hchain).1, rfl,
    Node.buildChainToTip_eq_none_iff h⟩
  have hx := (hiff xs).2 ⟨hxs, hxempty⟩
  rw [(hiff ys).2 ⟨hys, hyempty⟩] at hx
  exact (Option.some.inj hx).symm

/-- The first two blocks of the sample chain as a node may hold them, the second one pending. -/
def pendingChildNode : Node :=
  { Node.fresh (sampleEnv 1) none with
    blocks := [firstBlock], pendingCertifiedChildren := [secondBlock] }

/-- The chain to the second block is found, and no chain to a hash that no block has. -/
theorem pending_child_has_chain : (∃ chain, chain.length = 2 ∧
      pendingChildNode.buildChainToTip secondBlock.blockHash = some chain ∧
      pendingChildNode.ChainTo secondBlock.blockHash chain) ∧
    pendingChildNode.buildChainToTip rivalBlock.blockHash = none := by
  have hfacts : (pendingChildNode.knownBlocks.map (·.blockHash)).Nodup ∧
      (pendingChildNode.buildChainToTip secondBlock.blockHash).map List.length = some 2 ∧
      rivalBlock.blockHash ≠ empty_hash ∧
      rivalBlock.blockHash ∉ pendingChildNode.knownBlocks.map (·.blockHash) := by
    decide +kernel
  obtain ⟨hnodup, hbuilt, hrival, hunknown⟩ := hfacts
  obtain ⟨chain, hchain, hlength⟩ := Option.map_eq_some_iff.1 hbuilt
  have hbuilds := built_chain_is_chain_to_tip pendingChildNode (.of_nodup hnodup)
  have hdangles : pendingChildNode.Dangles rivalBlock.blockHash :=
    ⟨_, .refl, hrival, fun b hb heq => hunknown (heq ▸ List.mem_map_of_mem hb)⟩
  exact ⟨⟨chain, hlength, hchain, (((hbuilds _).2.1 chain).1 hchain).1⟩,
    (hbuilds _).2.2.2.2.2.2 (.inr (.inl hdangles))⟩

/-- A block that claims the empty hash, and one numbered after it on the empty hash. -/
def emptyHashNode : Node :=
  { Node.fresh (sampleEnv 1) none with
    blocks := [{ firstBlock with blockHash := empty_hash }],
    orphanBlocks := [emptyBlock 2 empty_hash 1] }

/-- The chain that passes the empty hash is not found: the walk takes that hash for the beginning. -/
theorem chain_through_empty_hash_is_missed : ∃ n : Node, n.HashesIdentify ∧ ∃ tip chain,
    n.ChainTo tip chain ∧ n.buildChainToTip tip = none := by
  have hnodup : (emptyHashNode.knownBlocks.map (·.blockHash)).Nodup := by decide +kernel
  have hnone : (emptyHashNode.buildChainToTip (emptyBlock 2 empty_hash 1).blockHash).isNone := by
    decide +kernel
  refine ⟨emptyHashNode, .of_nodup hnodup, (emptyBlock 2 empty_hash 1).blockHash,
    emptyHashNode.knownBlocks, ⟨fun _ hb => hb, ?_, ?_, ?_, rfl⟩, Option.isNone_iff_eq_none.1 hnone⟩
  · intro b hb
    obtain rfl := Option.some.inj hb
    rfl
  · intro i b c hb hc
    match i with
    | 0 =>
      obtain rfl := Option.some.inj hb
      obtain rfl := Option.some.inj hc
      rfl
    | i + 1 => cases hc
  · intro i b hb
    match i with
    | 0 =>
      obtain rfl := Option.some.inj hb
      rfl
    | 1 =>
      obtain rfl := Option.some.inj hb
      rfl
    | i + 2 => cases hb

end Entangrid
