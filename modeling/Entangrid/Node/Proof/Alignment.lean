import Entangrid.Node.Import
import Entangrid.Node.Proof.BlockStore

/-!
# Aligning a segment with the local chain

A segment continues the first blocks of the sender's chain. The receiver lays it on its own chain,
which may already have some of the blocks: it compares the tip the segment starts from and the hashes
of the overlap. Since a block's hash names its parent, the tip vouches for everything before it.

* `built_segment`: what `build_chain_segment_from_chain` takes from the chain.
* `align_eq_ok`: what `align_chain_segment_to_local_chain` accepts, and what it returns.
* `segment_extends_exactly_prefixes`: the chains that a segment extends are the prefixes of the
  sender's chain it starts in or after.
-/

namespace Entangrid

variable {bs ls blocks : List Block} {target localSnapshot : StateSnapshot}
  {receipts : List RelayReceipt} {window max k i : Nat} {tip : HashBytes} {seg aligned : ChainSegment}

/-! ## Building -/

/-- A segment holds the blocks after the known ones, and starts where these end. -/
theorem built_segment (h : buildChainSegmentFromChain target bs receipts window k tip max = some seg) :
    k < bs.length ∧ seg.baseHeight = k ∧ seg.baseTipHash = tip ∧ seg.blocks = bs.drop k := by
  unfold buildChainSegmentFromChain at h
  split_ifs at h with hlength
  all_goals
    obtain ⟨expected, -, h⟩ := Option.bind_eq_some_iff.1 h
    dsimp only at h
    split_ifs at h
    obtain rfl := Option.some.inj h
    exact ⟨Nat.lt_of_not_le hlength, rfl, rfl, rfl⟩

/-! ## Aligning -/

/-- The overlap is checked hash by hash. -/
theorem checkOverlap_ok_iff : checkOverlap ls i blocks = .ok () ↔
    (blocks.map (·.blockHash)) <+: (ls.drop i).map (·.blockHash) := by
  induction blocks generalizing i with
  | nil => simp [checkOverlap]
  | cons block rest ih =>
    rw [checkOverlap]
    cases hlocal : ls[i]? with
    | none =>
      have hdrop : ls.drop i = [] := List.drop_eq_nil_iff.2 (List.getElem?_eq_none_iff.1 hlocal)
      simp [hdrop]
    | some localBlock =>
      obtain ⟨hi, hget⟩ := List.getElem?_eq_some_iff.1 hlocal
      have hdrop : ls.drop i = localBlock :: ls.drop (i + 1) := by
        rw [← hget, List.drop_eq_getElem_cons hi]
      rw [hdrop]
      simp only [except_bind_ok, rejectIf_ok, ih, List.map_cons, List.cons_prefix_cons,
        bne_eq_false_iff_eq]
      constructor
      · rintro ⟨_, hhash, hrest⟩
        exact ⟨hhash.symm, hrest⟩
      · rintro ⟨hhash, hrest⟩
        exact ⟨(), hhash.symm, hrest⟩

/-- A segment that starts within the chain is compared with the hash the chain has there. -/
theorem align_of_le (hheight : localSnapshot.height = ls.length)
    (htip : localSnapshot.tipHash = tipFrom empty_hash ls) (hle : seg.baseHeight ≤ ls.length) :
    alignChainSegmentToLocalChain ls localSnapshot seg = (do
      rejectIf (tipFrom empty_hash (ls.take seg.baseHeight) != seg.baseTipHash) .segmentTipMismatch
      if seg.baseHeight = ls.length then do
        rejectIf (seg.baseTipHash != tipFrom empty_hash ls) .segmentTipMismatch
        .ok seg
      else do
        rejectIf (ls.length - seg.baseHeight > seg.blocks.length) .segmentMissingOverlap
        checkOverlap ls seg.baseHeight (seg.blocks.take (ls.length - seg.baseHeight))
        .ok { seg with
          baseHeight := ls.length
          baseTipHash := tipFrom empty_hash ls
          blocks := seg.blocks.drop (ls.length - seg.baseHeight) }) := by
  have hwithin : decide (seg.baseHeight > ls.length) = false :=
    decide_eq_false (Nat.not_lt_of_le hle)
  unfold alignChainSegmentToLocalChain
  rw [hheight, htip, rejectIf, hwithin]
  cases hk : seg.baseHeight with
  | zero => rfl
  | succ i =>
    have hi : ls[i]? = some ls[i] := List.getElem?_eq_getElem (by omega)
    have htake : tipFrom empty_hash (ls.take (i + 1)) = ls[i].blockHash :=
      HashChain.tipFrom_take_succ hi
    rw [htake, Nat.add_sub_cancel, hi]
    rfl

/-- What `align_chain_segment_to_local_chain` accepts on a chain whose snapshot is its tip: a segment
that starts in the chain, on the hash the chain has there, and repeats the hashes of the rest. It
returns what the chain does not have. -/
theorem align_eq_ok (hheight : localSnapshot.height = ls.length)
    (htip : localSnapshot.tipHash = tipFrom empty_hash ls) :
    alignChainSegmentToLocalChain ls localSnapshot seg = .ok aligned ↔
      seg.baseHeight ≤ ls.length ∧ tipFrom empty_hash (ls.take seg.baseHeight) = seg.baseTipHash ∧
        ls.length - seg.baseHeight ≤ seg.blocks.length ∧
        ((seg.blocks.take (ls.length - seg.baseHeight)).map (·.blockHash)) <+:
          (ls.drop seg.baseHeight).map (·.blockHash) ∧
        aligned = { seg with
          baseHeight := ls.length
          baseTipHash := tipFrom empty_hash ls
          blocks := seg.blocks.drop (ls.length - seg.baseHeight) } := by
  by_cases hle : seg.baseHeight ≤ ls.length
  · rw [align_of_le hheight htip hle]
    by_cases hsame : seg.baseHeight = ls.length
    · have hself : seg.baseTipHash = tipFrom empty_hash ls → seg = { seg with
          baseHeight := ls.length
          baseTipHash := tipFrom empty_hash ls
          blocks := seg.blocks.drop (ls.length - seg.baseHeight) } := by
        intro hbase
        rw [← hbase, ← hsame, Nat.sub_self, List.drop_zero]
      rw [if_pos hsame]
      simp only [except_bind_ok, rejectIf_ok, bne_eq_false_iff_eq]
      constructor
      · rintro ⟨_, htake, _, hbase, heq⟩
        obtain rfl := Except.ok.inj heq
        refine ⟨hle, htake, ?_, ?_, hself hbase⟩
        · rw [hsame, Nat.sub_self]
          exact Nat.zero_le _
        · rw [hsame, Nat.sub_self]
          exact List.nil_prefix
      · rintro ⟨-, htake, -, -, heq⟩
        have hbase : seg.baseTipHash = tipFrom empty_hash ls := by
          rw [← htake, hsame, List.take_length]
        refine ⟨(), htake, (), hbase, ?_⟩
        rw [heq, ← hself hbase]
    · rw [if_neg hsame]
      simp only [except_bind_ok, rejectIf_ok, bne_eq_false_iff_eq, decide_eq_false_iff_not,
        gt_iff_lt, Nat.not_lt]
      constructor
      · rintro ⟨_, htake, _, henough, _, hoverlap, heq⟩
        exact ⟨hle, htake, henough, checkOverlap_ok_iff.1 hoverlap, (Except.ok.inj heq).symm⟩
      · rintro ⟨-, htake, henough, hoverlap, rfl⟩
        exact ⟨(), htake, (), henough, (), checkOverlap_ok_iff.2 hoverlap, rfl⟩
  · have hreject : alignChainSegmentToLocalChain ls localSnapshot seg =
        .error (.segmentHeightMismatch ls.length seg.baseHeight) := by
      unfold alignChainSegmentToLocalChain
      rw [hheight, rejectIf, if_pos (decide_eq_true (Nat.lt_of_not_le hle))]
      rfl
    rw [hreject]
    exact ⟨fun h => (by cases h), fun h => absurd h.1 hle⟩

/-! ## The chains a segment extends -/

/-- The blocks of a chain, in a set in which `canonical_hash` tells blocks apart, under their hashes. -/
def ChainOf (H : Hashing) (S : Set Block) (chain : List Block) : Prop :=
  Linked empty_hash chain ∧ ∀ b ∈ chain, b ∈ S ∧ Hashed H b

theorem ChainOf.parent_eq {H : Hashing} {S : Set Block} (hS : CollisionFree H S)
    (hbs : ChainOf H S bs) (hls : ChainOf H S ls) :
    ∀ b ∈ bs, ∀ c ∈ ls, b.blockHash = c.blockHash → b.header.parentHash = c.header.parentHash := by
  intro b hb c hc h
  obtain ⟨hbS, hbH⟩ := hbs.2 b hb
  obtain ⟨hcS, hcH⟩ := hls.2 c hc
  rw [(hS.injective b hbS c hcS (hbH.trans (h.trans hcH.symm))).1]

/-- The prefixes of two chains with one tip have the same hashes. -/
theorem map_hash_take_eq {H : Hashing} {S : Set Block} (hS : CollisionFree H S)
    (hbs : ChainOf H S bs) (hls : ChainOf H S ls) (hk : k ≤ bs.length) (hk' : k ≤ ls.length)
    (htip : tipFrom empty_hash (ls.take k) = tipFrom empty_hash (bs.take k)) :
    (ls.take k).map (·.blockHash) = (bs.take k).map (·.blockHash) := by
  have hrest {chain : List Block} (h : Linked empty_hash chain) :
      Linked empty_hash (chain.take k) := by
    rw [← List.take_append_drop k chain] at h
    exact (HashChain.linkedFrom_append.1 h).1
  refine HashChain.map_hash_eq_of_length_eq (hrest hls.1) (hrest hbs.1) ?_ ?_ htip
  · rw [List.length_take, List.length_take, Nat.min_eq_left hk, Nat.min_eq_left hk']
  · exact fun b hb c hc => hls.parent_eq hS hbs b (List.mem_of_mem_take hb) c
      (List.mem_of_mem_take hc)

/-- **A segment extends exactly the prefixes of the chain it was built from.** Take the segment built
from a chain for a peer that knows its first `k` blocks. A chain is aligned with it if and only if it
has the hashes of a prefix of at least `k` blocks, and what is returned then starts at its end and
completes it. -/
theorem segment_extends_exactly_prefixes (H : Hashing) (S : Set Block) (hS : CollisionFree H S)
    (bs ls : List Block) (target localSnapshot : StateSnapshot) (receipts : List RelayReceipt)
    (window max k : Nat) (seg : ChainSegment) (hbs : ChainOf H S bs) (hls : ChainOf H S ls)
    (hheight : localSnapshot.height = ls.length)
    (htip : localSnapshot.tipHash = tipFrom empty_hash ls)
    (hbuilt : buildChainSegmentFromChain target bs receipts window k (tipFrom empty_hash (bs.take k))
      max = some seg) :
    ((∃ aligned, alignChainSegmentToLocalChain ls localSnapshot seg = .ok aligned) ↔
      k ≤ ls.length ∧ ls.length ≤ bs.length ∧
        ls.map (·.blockHash) = (bs.take ls.length).map (·.blockHash)) ∧
    ∀ aligned, alignChainSegmentToLocalChain ls localSnapshot seg = .ok aligned →
      aligned.baseHeight = ls.length ∧ aligned.baseTipHash = localSnapshot.tipHash ∧
        aligned.blocks = bs.drop ls.length ∧
        (ls ++ aligned.blocks).map (·.blockHash) = bs.map (·.blockHash) := by
  obtain ⟨hk, hheight', htip', hblocks⟩ := built_segment hbuilt
  have haccepts (aligned : ChainSegment) :
      alignChainSegmentToLocalChain ls localSnapshot seg = .ok aligned ↔
        k ≤ ls.length ∧ ls.length ≤ bs.length ∧
          ls.map (·.blockHash) = (bs.take ls.length).map (·.blockHash) ∧
          aligned = { seg with
            baseHeight := ls.length
            baseTipHash := tipFrom empty_hash ls
            blocks := bs.drop ls.length } := by
    rw [align_eq_ok hheight htip, hheight', htip', hblocks, List.length_drop]
    constructor
    · rintro ⟨hle, htake, henough, hoverlap, rfl⟩
      have hle' : ls.length ≤ bs.length := by omega
      have hcount : k + (ls.length - k) = ls.length := by omega
      have hrest : (ls.drop k).map (·.blockHash) =
          ((bs.drop k).take (ls.length - k)).map (·.blockHash) := by
        refine (hoverlap.eq_of_length ?_).symm
        rw [List.length_map, List.length_map, List.length_take, List.length_drop, List.length_drop,
          Nat.min_eq_left henough]
      refine ⟨hle, hle', ?_, ?_⟩
      · calc ls.map (·.blockHash)
            = (ls.take k).map (·.blockHash) ++ (ls.drop k).map (·.blockHash) := by
              rw [← List.map_append, List.take_append_drop]
          _ = (bs.take k).map (·.blockHash) ++
                ((bs.drop k).take (ls.length - k)).map (·.blockHash) := by
              rw [map_hash_take_eq hS hbs hls (Nat.le_of_lt hk) hle htake, hrest]
          _ = (bs.take ls.length).map (·.blockHash) := by
              rw [← List.map_append, ← List.take_add, hcount]
      · rw [List.drop_drop, hcount]
    · rintro ⟨hle, hle', hhashes, rfl⟩
      have hcount : k + (ls.length - k) = ls.length := by omega
      have htake : (ls.take k).map (·.blockHash) = (bs.take k).map (·.blockHash) := by
        have h := congrArg (List.take k) hhashes
        rwa [← List.map_take, ← List.map_take, List.take_take, Nat.min_eq_left hle] at h
      have hdrop : (ls.drop k).map (·.blockHash) =
          ((bs.drop k).take (ls.length - k)).map (·.blockHash) := by
        have h := congrArg (List.drop k) hhashes
        rwa [← List.map_drop, ← List.map_drop, List.drop_take] at h
      refine ⟨hle, HashChain.tipFrom_congr htake, by omega, ?_, ?_⟩
      · rw [hdrop]
      · rw [List.drop_drop, hcount]
  refine ⟨⟨?_, ?_⟩, fun aligned haligned => ?_⟩
  · rintro ⟨aligned, haligned⟩
    obtain ⟨hle, hle', hhashes, -⟩ := (haccepts aligned).1 haligned
    exact ⟨hle, hle', hhashes⟩
  · rintro ⟨hle, hle', hhashes⟩
    exact ⟨_, (haccepts _).2 ⟨hle, hle', hhashes, rfl⟩⟩
  · obtain ⟨hle, hle', hhashes, rfl⟩ := (haccepts aligned).1 haligned
    refine ⟨rfl, htip.symm, rfl, ?_⟩
    rw [List.map_append, hhashes, ← List.map_append, List.take_append_drop]

theorem chainOf_first_second : ChainOf rollingHashing {b | b = firstBlock ∨ b = secondBlock}
    [firstBlock, secondBlock] := by
  have hfacts : firstBlock.header.parentHash = empty_hash ∧
      secondBlock.header.parentHash = firstBlock.blockHash ∧
      blockBodyHash rollingHashing firstBlock = firstBlock.blockHash ∧
      blockBodyHash rollingHashing secondBlock = secondBlock.blockHash := by
    decide +kernel
  refine ⟨⟨hfacts.1, hfacts.2.1, trivial⟩, fun b hb => ?_⟩
  rcases List.mem_pair.1 hb with rfl | rfl
  · exact ⟨.inl rfl, hfacts.2.2.1⟩
  · exact ⟨.inr rfl, hfacts.2.2.2⟩

/-- The snapshot of a node on the first block. -/
def firstBlockSnapshot : StateSnapshot :=
  { (LedgerState.fromGenesis sampleGenesis).snapshot with
    height := 1
    tipHash := firstBlock.blockHash }

/-- The segment of two blocks for a peer that knows none, on the chain of the first. -/
theorem sample_segment_extends_first_block : ∃ seg aligned,
    buildChainSegmentFromChain firstBlockSnapshot [firstBlock, secondBlock] [] 4 0 empty_hash 128 =
      some seg ∧
    alignChainSegmentToLocalChain [firstBlock] firstBlockSnapshot seg = .ok aligned ∧
    aligned.baseHeight = 1 ∧ aligned.blocks = [secondBlock] := by
  have hfirst : ChainOf rollingHashing {b | b = firstBlock ∨ b = secondBlock} [firstBlock] :=
    ⟨⟨chainOf_first_second.1.1, trivial⟩, fun b hb => chainOf_first_second.2 b (by simp_all)⟩
  have hbuilt : (buildChainSegmentFromChain firstBlockSnapshot [firstBlock, secondBlock] [] 4 0
      empty_hash 128).isSome = true := by
    decide +kernel
  obtain ⟨seg, hbuilt⟩ := Option.isSome_iff_exists.1 hbuilt
  obtain ⟨haccepts, hreturns⟩ := segment_extends_exactly_prefixes rollingHashing
    {b | b = firstBlock ∨ b = secondBlock} collisionFree_first_second [firstBlock, secondBlock]
    [firstBlock] firstBlockSnapshot firstBlockSnapshot [] 4 128 0 seg chainOf_first_second hfirst rfl rfl
    hbuilt
  obtain ⟨aligned, haligned⟩ := haccepts.2 ⟨Nat.zero_le 1, Nat.le_succ 1, rfl⟩
  obtain ⟨hbase, -, hblocks, -⟩ := hreturns aligned haligned
  exact ⟨seg, aligned, hbuilt, haligned, hbase, hblocks⟩

end Entangrid
