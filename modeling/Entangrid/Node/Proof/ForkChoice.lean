import Entangrid.Node.Proof.Branch
import Entangrid.Sample
import Mathlib.Logic.Relation

/-!
# Fork choice

`compare_branch_quality` is a cascade, but it compares two chains by one key: the certified height;
above a certificate, whether the tip is certified and the certified hash; and the quality of the
branch, which ends in the tip hash. So it is a total preorder of all chains, and a total order of the
chains that are built to a tip.

* `branchKey`, `compareBranchQuality_eq`: the key, and that chains compare as their keys do.
* `eq_of_tipFrom_eq`: a chain built to a tip is determined by its tip.
* `fork_choice_is_total_order`: the laws of the order, and that no adoptions go round.
-/

namespace Entangrid

variable {E : Env} {n : Node} {a b c chain : List Block}

/-! ## The order of a key -/

section Acyclic
variable {α : Type} {cmp : α → α → Ordering} [Std.TransCmp cmp] {x y : α}

/-- Going from each element to a greater one leads to a greater one. -/
theorem gt_of_transGen (h : Relation.TransGen (fun x y => cmp y x = .gt) x y) : cmp y x = .gt := by
  induction h with
  | single h => exact h
  | tail _ hlast ih => exact Std.TransCmp.gt_trans hlast ih

theorem not_transGen_gt : ¬Relation.TransGen (fun x y => cmp y x = .gt) x x := by
  intro h
  have hself : cmp x x = .eq := Std.ReflCmp.compare_self
  rw [gt_of_transGen h] at hself
  cases hself

end Acyclic

namespace Node

/-- What a chain is compared by. -/
def branchKey (n : Node) (E : Env) (chain : List Block) : Nat × Bool × HashBytes × BranchQuality :=
  (n.latestCertifiedHeight chain,
    if n.latestCertifiedHeight chain > 0 then n.tipCertified chain else false,
    if n.latestCertifiedHeight chain > 0 then
      ((n.latestCertifiedBlock chain).map (·.blockHash)).getD empty_hash
    else empty_hash,
    n.branchQualityWithExtraTipVote E chain none)

/-- Chains compare as their keys do. -/
theorem compareBranchQuality_eq :
    n.compareBranchQuality E a b = compare (n.branchKey E a) (n.branchKey E b) := by
  have hkeys : compare (n.branchKey E a) (n.branchKey E b) =
      (compare (n.branchKey E a).1 (n.branchKey E b).1).then
        ((compare (n.branchKey E a).2.1 (n.branchKey E b).2.1).then
          ((compare (n.branchKey E a).2.2.1 (n.branchKey E b).2.2.1).then
            (compare (n.branchKey E a).2.2.2 (n.branchKey E b).2.2.2))) := rfl
  rw [hkeys]
  show (compare (n.latestCertifiedHeight a) (n.latestCertifiedHeight b)).then _ =
    (compare (n.latestCertifiedHeight a) (n.latestCertifiedHeight b)).then _
  cases hheight : compare (n.latestCertifiedHeight a) (n.latestCertifiedHeight b) with
  | lt => rfl
  | gt => rfl
  | eq =>
    have hsame := Nat.compare_eq_eq.1 hheight
    show (if n.latestCertifiedHeight a > 0 then _ else _ : Ordering) = _
    simp only [branchKey, ← hsame]
    split_ifs
    · rw [Ordering.then_assoc]
      rfl
    · have hflag : compare false false = .eq := rfl
      have hempty : compare empty_hash empty_hash = .eq := Std.ReflCmp.compare_self
      rw [hflag, hempty]
      rfl

instance : Std.TransCmp (n.compareBranchQuality E) where
  eq_swap := by
    intro a b
    rw [compareBranchQuality_eq, compareBranchQuality_eq]
    exact Std.OrientedOrd.eq_swap
  isLE_trans := by
    intro a b c hab hbc
    rw [compareBranchQuality_eq] at hab hbc ⊢
    exact Std.TransOrd.isLE_trans hab hbc

/-! ## Chains to a tip -/

/-- The empty chain and the chains built to a tip. -/
def Builds (n : Node) (chain : List Block) : Prop :=
  chain = [] ∨ ∃ tipHash, n.buildChainToTip tipHash = some chain

/-- The quality of a branch ends in its tip hash. -/
theorem tipHash_branchQuality : (n.branchQualityWithExtraTipVote E chain none).2.2.2.2.2 =
    tipFrom empty_hash chain := by
  have htip : (n.branchQualityWithExtraTipVote E chain none).2.2.2.2.2 =
      (chain.getLast?.map (·.blockHash)).getD empty_hash := by
    unfold branchQualityWithExtraTipVote
    dsimp only
    split_ifs <;> rfl
  exact htip.trans (HashChain.getLast?_map_getD chain)

theorem Builds.buildChainToTip (h : n.Builds chain) :
    n.buildChainToTip (tipFrom empty_hash chain) = some chain := by
  rcases h with rfl | ⟨tipHash, h⟩
  · rfl
  · rw [(buildChainToTip_eq_some h).2.2, h]

/-- A chain built to a tip is determined by it. -/
theorem eq_of_tipFrom_eq (ha : n.Builds a) (hb : n.Builds b)
    (h : tipFrom empty_hash a = tipFrom empty_hash b) : a = b := by
  have hchain := ha.buildChainToTip
  rw [h, hb.buildChainToTip] at hchain
  exact (Option.some.inj hchain).symm

end Node

open Node in
/-- **Fork choice is a total order.** Under fixed votes and certificates the comparison of chains is
reflexive, antisymmetric and transitive; chains that are built to a tip compare as equal only with
themselves; a chain never ranks above one with a higher certified block; and chains adopted one after
the other, each better than the one before, never come back to the first. -/
theorem fork_choice_is_total_order (E : Env) (n : Node) :
    (∀ a, n.compareBranchQuality E a a = .eq) ∧
    (∀ a b, n.compareBranchQuality E b a = (n.compareBranchQuality E a b).swap) ∧
    (∀ a b c, (n.compareBranchQuality E a b).isLE → (n.compareBranchQuality E b c).isLE →
      (n.compareBranchQuality E a c).isLE) ∧
    (∀ a b, n.Builds a → n.Builds b → n.compareBranchQuality E a b = .eq → a = b) ∧
    (∀ a b, n.latestCertifiedHeight a < n.latestCertifiedHeight b →
      n.compareBranchQuality E a b = .lt) ∧
    ∀ a, ¬Relation.TransGen
      (fun current candidate => n.compareBranchQuality E candidate current = .gt) a a := by
  refine ⟨fun a => Std.ReflCmp.compare_self, fun a b => Std.OrientedCmp.eq_swap,
    fun a b c hab hbc => Std.TransCmp.isLE_trans hab hbc, fun a b ha hb heq => ?_,
    fun a b hlt => ?_, fun a => not_transGen_gt⟩
  · rw [compareBranchQuality_eq] at heq
    have hkey : n.branchKey E a = n.branchKey E b := Std.LawfulEqOrd.eq_of_compare heq
    refine eq_of_tipFrom_eq ha hb ?_
    have hquality := congrArg (fun key => key.2.2.2.2.2.2.2.2) hkey
    exact tipHash_branchQuality.symm.trans (hquality.trans tipHash_branchQuality)
  · rw [compareBranchQuality_eq]
    show (compare (n.latestCertifiedHeight a) (n.latestCertifiedHeight b)).then _ = .lt
    rw [Nat.compare_eq_lt.2 hlt]
    rfl

/-- A node on the first block that keeps the block beside it as an orphan. -/
def twoBranchNode : Node :=
  { Node.fresh (sampleEnv 1) none with blocks := [firstBlock], orphanBlocks := [rivalBlock] }

/-- Both branches are built to their tips, and one ranks above the other. -/
theorem two_branches_differ : ∃ a b,
    twoBranchNode.buildChainToTip firstBlock.blockHash = some a ∧
      twoBranchNode.buildChainToTip rivalBlock.blockHash = some b ∧
      twoBranchNode.compareBranchQuality (sampleEnv 1) a b ≠ .eq := by
  have hbuilt : (twoBranchNode.buildChainToTip firstBlock.blockHash).isSome ∧
      (twoBranchNode.buildChainToTip rivalBlock.blockHash).isSome ∧
      firstBlock.blockHash ≠ rivalBlock.blockHash := by
    decide +kernel
  obtain ⟨a, ha⟩ := Option.isSome_iff_exists.1 hbuilt.1
  obtain ⟨b, hb⟩ := Option.isSome_iff_exists.1 hbuilt.2.1
  refine ⟨a, b, ha, hb, fun heq => hbuilt.2.2 ?_⟩
  have hsame : a = b := (fork_choice_is_total_order (sampleEnv 1) twoBranchNode).2.2.2.1 a b
    (.inr ⟨firstBlock.blockHash, ha⟩) (.inr ⟨rivalBlock.blockHash, hb⟩) heq
  have hfirst := (Node.buildChainToTip_eq_some ha).2.2
  rw [hsame, (Node.buildChainToTip_eq_some hb).2.2] at hfirst
  exact hfirst.symm

end Entangrid
