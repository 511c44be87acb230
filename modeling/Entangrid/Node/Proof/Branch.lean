import Entangrid.Lib.BackWalk
import Entangrid.Node.Run

/-!
# Branches

What the chain queries of a node return: a block found under a hash is known and has it, and a chain
built to a tip consists of known blocks, is linked and numbered from the empty hash, and ends in the
tip.
-/

namespace Entangrid

/-- `block` after `block` from `start`, each naming the hash of the one before. -/
abbrev Linked (start : HashBytes) (chain : List Block) : Prop :=
  HashChain.LinkedFrom Block.blockHash (·.header.parentHash) start chain

/-- The hash a chain laid on `start` ends with. -/
abbrev tipFrom (start : HashBytes) (chain : List Block) : HashBytes :=
  HashChain.tipFrom Block.blockHash start chain

/-! ## Finding blocks -/

section Find
variable {blocks : List Block} {h : HashBytes}

theorem findBlock_eq_some {block : Block} (hb : findBlock blocks h = some block) :
    block ∈ blocks ∧ block.blockHash = h :=
  ⟨List.mem_of_find?_eq_some hb, by simpa using List.find?_some hb⟩

theorem findBlock_eq_none : findBlock blocks h = none ↔ ∀ block ∈ blocks, block.blockHash ≠ h := by
  simp [findBlock]

theorem hasBlock_iff : hasBlock blocks h = true ↔ ∃ block ∈ blocks, block.blockHash = h := by
  simp [hasBlock]

theorem hasBlock_eq_false : hasBlock blocks h = false ↔ ∀ block ∈ blocks, block.blockHash ≠ h := by
  simp [hasBlock]

end Find

/-! ## Numbered chains -/

section Numbered
variable {start : HashBytes} {height : Nat} {chain : List Block}

theorem linked_of_numberedFrom (h : numberedFrom start height chain = true) : Linked start chain := by
  induction chain generalizing start height with
  | nil => trivial
  | cons b rest ih =>
    simp only [numberedFrom, Bool.and_eq_true, beq_iff_eq] at h
    exact ⟨h.1.1, ih h.2⟩

theorem blockNumber_of_numberedFrom (h : numberedFrom start height chain = true) {i : Nat}
    {block : Block} (hi : chain[i]? = some block) : block.header.blockNumber = height + i := by
  induction chain generalizing start height i with
  | nil => simp at hi
  | cons b rest ih =>
    simp only [numberedFrom, Bool.and_eq_true, beq_iff_eq] at h
    cases i with
    | zero =>
      obtain rfl : b = block := by simpa using hi
      exact h.1.2
    | succ i =>
      have := ih h.2 (by simpa using hi)
      omega

theorem numberedFrom_of_linked (hlinked : Linked start chain)
    (hnumber : ∀ (i : Nat) (block : Block), chain[i]? = some block →
      block.header.blockNumber = height + i) : numberedFrom start height chain = true := by
  induction chain generalizing start height with
  | nil => rfl
  | cons b rest ih =>
    have hrest : numberedFrom b.blockHash (height + 1) rest = true := ih hlinked.2 fun i block hi => by
      rw [hnumber (i + 1) block (by simpa using hi)]
      omega
    have hb : b.header.blockNumber = height := hnumber 0 b rfl
    simp [numberedFrom, hb, hlinked.1, hrest]

end Numbered

namespace Node

variable {n : Node} {h : HashBytes}

theorem mem_knownBlocks {block : Block} :
    block ∈ n.knownBlocks ↔
      block ∈ n.blocks ∨ block ∈ n.pendingCertifiedChildren ∨ block ∈ n.orphanBlocks := by
  simp [knownBlocks]

theorem knownBlock_eq_findBlock : n.knownBlock h = findBlock n.knownBlocks h := by
  simp [knownBlock, knownBlocks, findBlock, Option.or_assoc]

theorem knownBlock_eq_some {block : Block} (hb : n.knownBlock h = some block) :
    block ∈ n.knownBlocks ∧ block.blockHash = h :=
  findBlock_eq_some (knownBlock_eq_findBlock ▸ hb)

theorem knownBlock_eq_none : n.knownBlock h = none ↔ ∀ block ∈ n.knownBlocks, block.blockHash ≠ h := by
  rw [knownBlock_eq_findBlock, findBlock_eq_none]

theorem blockByHash_eq_some {block : Block} (hb : n.blockByHash h = some block) :
    block ∈ n.knownBlocks ∧ block.blockHash = h := by
  simpa using findBlock_eq_some hb

/-- The blocks with one hash are one block. -/
def HashesIdentify (n : Node) : Prop :=
  ∀ b ∈ n.knownBlocks, ∀ c ∈ n.knownBlocks, b.blockHash = c.blockHash → b = c

theorem HashesIdentify.of_nodup (hdistinct : (n.knownBlocks.map (·.blockHash)).Nodup) :
    n.HashesIdentify := fun _ hb _ hc heq => List.inj_on_of_nodup_map hdistinct hb hc heq

/-- A known block is what is found under its hash. -/
theorem HashesIdentify.found (h : n.HashesIdentify) {xs : List Block}
    (hxs : ∀ b ∈ xs, b ∈ n.knownBlocks) {block : Block} (hb : block ∈ xs) :
    findBlock xs block.blockHash = some block := by
  cases hfound : findBlock xs block.blockHash with
  | none => exact absurd rfl (findBlock_eq_none.1 hfound block hb)
  | some c =>
    obtain ⟨hc, hhash⟩ := findBlock_eq_some hfound
    rw [h c (hxs c hc) block (hxs block hb) hhash]

theorem HashesIdentify.blockByHash (h : n.HashesIdentify) {block : Block}
    (hb : block ∈ n.knownBlocks) : n.blockByHash block.blockHash = some block := by
  apply h.found
  · simp
  · simpa using hb

theorem HashesIdentify.knownBlock (h : n.HashesIdentify) {block : Block}
    (hb : block ∈ n.knownBlocks) : n.knownBlock block.blockHash = some block := by
  rw [knownBlock_eq_findBlock]
  exact h.found (fun _ hc => hc) hb

/-! ## Chains to a tip -/

/-- The blocks from the empty hash to a hash, by the parents the known blocks name. -/
abbrev ParentPath (n : Node) (h : HashBytes) (chain : List Block) : Prop :=
  BackWalk.Path n.blockByHash (·.header.parentHash) empty_hash h chain

theorem walkToGenesis_eq_walk (fuel : Nat) (h : HashBytes) (visited : List HashBytes)
    (chain : List Block) : n.walkToGenesis fuel h visited chain =
      BackWalk.walk n.blockByHash (·.header.parentHash) empty_hash fuel h visited chain := by
  induction fuel generalizing h visited chain with
  | zero => rfl
  | succ fuel ih => simp [walkToGenesis, BackWalk.walk, ih]

theorem mem_hashes_of_blockByHash (h : HashBytes) (block : Block)
    (hb : n.blockByHash h = some block) : h ∈ n.knownBlocks.map (·.blockHash) := by
  obtain ⟨hmem, rfl⟩ := blockByHash_eq_some hb
  exact List.mem_map_of_mem hmem

theorem blockHash_of_blockByHash (h : HashBytes) (block : Block)
    (hb : n.blockByHash h = some block) : block.blockHash = h := (blockByHash_eq_some hb).2

/-- **The chain to a tip is the path to it, if that is numbered.** -/
theorem buildChainToTip_iff {chain : List Block} : n.buildChainToTip h = some chain ↔
    n.ParentPath h chain ∧ numberedFrom empty_hash 1 chain = true := by
  have hwalk (xs : List Block) : n.walkToGenesis (n.knownBlocks.length + 1) h [] [] = some xs ↔
      n.ParentPath h xs := by
    rw [walkToGenesis_eq_walk]
    exact BackWalk.walk_eq_some_iff mem_hashes_of_blockByHash (by simp)
  rw [← hwalk]
  unfold buildChainToTip
  cases hresult : n.walkToGenesis (n.knownBlocks.length + 1) h [] [] with
  | none => simp
  | some walked =>
    simp only [Option.some.injEq]
    constructor
    · intro hc
      split_ifs at hc with hnumbered
      obtain rfl := Option.some.inj hc
      exact ⟨rfl, hnumbered⟩
    · rintro ⟨rfl, hnumbered⟩
      rw [if_pos hnumbered]

/-- **A chain built to a tip consists of known blocks, is numbered and ends in the tip.** -/
theorem buildChainToTip_eq_some {chain : List Block} (hc : n.buildChainToTip h = some chain) :
    (∀ block ∈ chain, block ∈ n.knownBlocks) ∧ numberedFrom empty_hash 1 chain = true ∧
      tipFrom empty_hash chain = h := by
  obtain ⟨hpath, hnumbered⟩ := buildChainToTip_iff.1 hc
  refine ⟨fun b hb => ?_, hnumbered, hpath.tipFrom_eq blockHash_of_blockByHash⟩
  exact (blockByHash_eq_some (hpath.mem blockHash_of_blockByHash hb).2.1).1

/-- The chain built to a tip has distinct hashes, none of them empty, and its blocks are the ones
found under them. -/
theorem buildChainToTip_distinct {chain : List Block} (hc : n.buildChainToTip h = some chain) :
    (chain.map (·.blockHash)).Nodup ∧
      ∀ b ∈ chain, b.blockHash ≠ empty_hash ∧ n.blockByHash b.blockHash = some b := by
  have hpath := (buildChainToTip_iff.1 hc).1
  refine ⟨hpath.nodup blockHash_of_blockByHash, fun b hb => ?_⟩
  obtain ⟨hne, hfound, -⟩ := hpath.mem blockHash_of_blockByHash hb
  exact ⟨hne, hfound⟩

/-- A numbered chain of blocks found under their hashes is the chain to its tip. -/
theorem buildChainToTip_of_numbered {chain : List Block}
    (hnumbered : numberedFrom empty_hash 1 chain = true)
    (hfound : ∀ b ∈ chain, b.blockHash ≠ empty_hash ∧ n.blockByHash b.blockHash = some b) :
    n.buildChainToTip (tipFrom empty_hash chain) = some chain :=
  buildChainToTip_iff.2 ⟨.of_linkedFrom (linked_of_numberedFrom hnumbered) hfound, hnumbered⟩

theorem buildChainToTip_known {chain : List Block} (hc : n.buildChainToTip h = some chain)
    {block : Block} (hb : block ∈ chain) : block ∈ n.knownBlocks :=
  (buildChainToTip_eq_some hc).1 block hb

theorem buildParentChainForBlock_known {block : Block} {chain : List Block}
    (hc : n.buildParentChainForBlock block = some chain) {b : Block} (hb : b ∈ chain) :
    b ∈ n.knownBlocks := by
  unfold buildParentChainForBlock at hc
  split_ifs at hc
  · obtain rfl := Option.some.inj hc
    simp at hb
  · exact buildChainToTip_known hc hb

end Node

end Entangrid
