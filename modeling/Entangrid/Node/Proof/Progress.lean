import Entangrid.Node.Proof.Plain
import Entangrid.Node.Proof.Provenance
import Mathlib.Data.Prod.Lex

/-!
# Progress without `consensus_v2`

A node without `consensus_v2` extends its chain, or replaces it by one that is preferred: higher, or
as high with a later slot, or a greater hash. So its chain never falls back (`Standing`).
-/

namespace Entangrid

open LedgerState
open Relation (ReflTransGen)

/-- Height, slot and hash of a tip, in the order in which snapshots are preferred. -/
abbrev Standing := Nat ×ₗ Nat ×ₗ HashBytes

def StateSnapshot.standing (snapshot : StateSnapshot) : Standing :=
  toLex (snapshot.height, toLex (snapshot.lastSlot, snapshot.tipHash))

def Block.standing (block : Block) : Standing :=
  toLex (block.header.blockNumber, toLex (block.header.slot, block.blockHash))

/-- The standing of the last block of a chain. -/
def chainStanding (chain : List Block) : Standing :=
  (chain.getLast?.map Block.standing).getD (toLex (0, toLex (0, empty_hash)))

def Node.standing (n : Node) : Standing := n.ledger.snapshot.standing

theorem compare_then_gt {x x' y y' : Nat} {z z' : HashBytes} :
    (compare x x').then ((compare y y').then (compare z z')) = .gt ↔
      (toLex (x', toLex (y', z')) : Standing) < toLex (x, toLex (y, z)) := by
  simp only [Ordering.then_eq_gt, compare_gt_iff_gt, compare_eq_iff_eq, Prod.Lex.toLex_lt_toLex,
    eq_comm (a := x), eq_comm (a := y)]

/-- A snapshot is adopted when it stands higher. -/
theorem shouldAdoptSnapshot_iff {locally remote : StateSnapshot} :
    shouldAdoptSnapshot locally remote = true ↔ locally.standing < remote.standing := by
  have hthen : compare remote.preference locally.preference =
      (compare remote.height locally.height).then ((compare remote.lastSlot locally.lastSlot).then
        (compare remote.tipHash locally.tipHash)) := rfl
  rw [shouldAdoptSnapshot, SyncPreference.gt, beq_iff_eq, hthen]
  exact compare_then_gt

theorem standing_lt_of_height {s s' : StateSnapshot} (h : s.height < s'.height) :
    s.standing < s'.standing := Prod.Lex.toLex_lt_toLex.2 (.inl h)

/-- A validated snapshot is the one its blocks lead to. -/
theorem validateChainSnapshot_snapshot {E : Env} {chain : ChainSnapshot} {ledger : LedgerState}
    (h : validateChainSnapshot E chain = .ok ledger) : ledger.snapshot = chain.snapshot := by
  simp only [validateChainSnapshot, except_bind_ok, rejectIf_ok] at h
  obtain ⟨_, -, ledger', -, _, hsame, h⟩ := h
  cases h
  simpa using hsame

/-- Where a list of blocks leads: to the standing of its last block. -/
theorem standing_of_applyBlocks {H : Hashing} {crypto : CryptoBackend} {l l' : LedgerState}
    {chain : List Block} (h : l.applyBlocks H crypto chain = .ok l') :
    l'.snapshot.standing = (chain.getLast?.map Block.standing).getD l.snapshot.standing := by
  induction chain generalizing l with
  | nil =>
    cases h
    rfl
  | cons block chain ih =>
    obtain ⟨l₁, hblock, h⟩ := except_bind_ok.1 h
    obtain ⟨_, -, -, rfl⟩ := applyBlock_ok hblock
    rw [ih h, List.getLast?_cons]
    cases chain.getLast? <;> rfl

section
variable {E : Env} {S : Set Block} {A : Source} {n n' : Node}

/-- The standing of a node is that of its last block. -/
theorem StoreInv.standing (h : StoreInv E n) : n.standing = chainStanding n.blocks :=
  standing_of_applyBlocks h.replay

/-! ## Heights -/

section
variable (hlast : ∀ b ∈ S, b.header.blockNumber + 1 < 2 ^ 64)
include hlast

/-- No chain is as long as the numbers go. -/
theorem NumberInv.length_lt (h : NumberInv E S n) : n.blocks.length + 1 < 2 ^ 64 := by
  by_contra hlen
  have hlt : 2 ^ 64 - 2 < n.blocks.length := by omega
  have hb : n.blocks[2 ^ 64 - 2]? = some n.blocks[2 ^ 64 - 2] := List.getElem?_eq_getElem hlt
  have hmem := List.mem_of_getElem? hb
  have hchain (b : Block) (hb : b ∈ n.blocks) : b ∈ S ∧ Hashed E.hashing b :=
    have hb' := Node.mem_knownBlocks.2 (.inl hb)
    ⟨h.arrived b hb', h.hashed b hb'⟩
  have hnumber := blockNumber_of_numbered h.linked hchain
    (fun b hb => h.known b (Node.mem_knownBlocks.2 (.inl hb))) hb
  have hbound := hlast _ (hchain _ hmem).1
  omega

theorem NumberInv.height_eq (h : NumberInv E S n) : n.ledger.snapshot.height = n.blocks.length := by
  have hlen := h.length_lt hlast
  have hstanding := h.toStoreInv.standing
  have hheight : n.ledger.snapshot.height = (ofLex n.standing).1 := rfl
  rw [hheight, hstanding, chainStanding]
  cases hb : n.blocks.getLast? with
  | none =>
    rw [List.getLast?_eq_none_iff.1 hb]
    rfl
  | some b =>
    have hpos := List.length_pos_of_mem (List.mem_of_getLast? hb)
    rw [List.getLast?_eq_getElem?] at hb
    have hnumber := h.blockNumber_of_getElem? (by omega) hb
    show b.header.blockNumber = _
    omega

end

/-! ## Steps -/

theorem Inert.voteCount (h : Inert n) (blockHash : HashBytes) : n.voteCount blockHash = 0 := by
  rw [Node.voteCount]
  cases hvotes : n.proposalVotes[blockHash]? with
  | none => rfl
  | some byValidator =>
    by_contra hsize
    have hsize : 0 < byValidator.toList.length := by
      rw [Std.ExtTreeMap.length_toList]
      exact Nat.pos_of_ne_zero hsize
    obtain ⟨⟨v, vote⟩, hvote⟩ := List.exists_mem_of_length_pos hsize
    rw [Std.ExtTreeMap.mem_toList_iff_getElem?_eq_some] at hvote
    exact h.votes vote ⟨blockHash, v, .inl (VoteMap.lookup_eq_some_iff.2 ⟨_, hvotes, hvote⟩)⟩

theorem Inert.hasQc (h : Inert n) (blockHash : HashBytes) : n.hasQc blockHash = false := by
  rw [Node.hasQc, ← Std.ExtTreeMap.isSome_getElem?_eq_contains, h.certificates]
  rfl

theorem Inert.latestCertifiedBlock (h : Inert n) (chain : List Block) :
    n.latestCertifiedBlock chain = none := by
  simp [Node.latestCertifiedBlock, h.hasQc]

theorem Inert.highestLocalQc (h : Inert n) : n.highestLocalQc = none := by
  simp [Node.highestLocalQc, h.certificates]

theorem Inert.branchQuality (h : Inert n) (chain : List Block) :
    n.branchQualityWithExtraTipVote E chain none =
      (0, 0, (chainStanding chain).1, 0, (chainStanding chain).2.1, (chainStanding chain).2.2) := by
  have hcertified : n.latestCertifiedHeight chain = 0 := by
    rw [Node.latestCertifiedHeight, h.latestCertifiedBlock]
    rfl
  have hvotes (blockHash : HashBytes) : n.voteCountWithExtra E none blockHash = 0 := by
    simp [Node.voteCountWithExtra, h.voteCount]
  have hzero (k : Nat) : satMul 0 k = 0 := by simp [satMul]
  simp only [Node.branchQualityWithExtraTipVote, if_pos hcertified, hvotes, preQcTipSupportQuality,
    chainStanding]
  cases chain.getLast? with
  | none => rfl
  | some b => simp only [Option.map_some, Option.getD_some, hzero, Block.standing]; rfl

/-- Without votes and certificates a branch is as good as its tip stands. -/
theorem Inert.compareBranchQuality_gt (h : Inert n) {a b : List Block} :
    n.compareBranchQuality E a b = .gt ↔ chainStanding b < chainStanding a := by
  have hquality : n.compareBranchQuality E a b =
      compare (n.branchQualityWithExtraTipVote E a none)
        (n.branchQualityWithExtraTipVote E b none) := by
    simp [Node.compareBranchQuality, h.latestCertifiedBlock]
  rw [hquality, h.branchQuality, h.branchQuality]
  exact compare_then_gt

/-- Without certificates nothing is a child of the certified head. -/
theorem Inert.betterUncertifiedChild (h : Inert n) : betterUncertifiedChild n = none := by
  have hlocked : n.highestLockedQcHash = none := by
    simp [Node.highestLockedQcHash, h.hasQc]
  have hchild (block : Block) : n.isDirectChildOfCurrentCertifiedHead block = false := by
    simp [Node.isDirectChildOfCurrentCertifiedHead, Node.currentCertifiedHead, hlocked]
  have hnone : n.knownUncertifiedChildrenForCertifiedHead = [] := by
    simp [Node.knownUncertifiedChildrenForCertifiedHead, Node.uncertifiedChildren, hchild]
  simp [Entangrid.betterUncertifiedChild, hnone]

section
variable (hv1 : E.v2 = false) (hinert : Inert n)
include hv1 hinert

/-- A chain that is adopted without a sync stands higher. -/
theorem ChainSource.standing_lt {chain : List Block} (hsync : ∀ core, A.suffixes core = ∅)
    (h : ChainSource E A n chain) : chainStanding n.blocks < chainStanding chain := by
  cases h with
  | certified tipHash h =>
    unfold certifiedBranchCandidate at h
    obtain ⟨candidate, -, h⟩ := Option.bind_eq_some_iff.1 h
    split_ifs at h with hempty hknown hbetter
    obtain rfl := Option.some.inj h
    exact hinert.compareBranchQuality_gt.1 (not_not.1 hbetter)
  | betterChild h =>
    rw [hinert.betterUncertifiedChild] at h
    cases h
  | voteSupported tipHash h =>
    simp [voteSupportedCandidate, hv1] at h
  | competing _ _ _ hv2 =>
    rw [hv1] at hv2
    cases hv2
  | sync hoffered =>
    rw [hsync] at hoffered
    exact hoffered.elim

/-- The canonical chain is extended or replaced by a preferred one. -/
theorem Step.standing_le (hsync : ∀ core, A.suffixes core = ∅)
    (hlast : ∀ b ∈ S, b.header.blockNumber + 1 < 2 ^ 64) (h : NumberInv E S n)
    (h' : NumberInv E S n') (hstep : Step E A n n') : n.standing ≤ n'.standing := by
  have hkeep (hledger : n'.ledger = n.ledger) : n.standing ≤ n'.standing :=
    (congrArg (·.snapshot.standing) hledger).ge
  have hlonger (hlt : n.blocks.length < n'.blocks.length) : n.standing ≤ n'.standing := by
    apply le_of_lt
    apply standing_lt_of_height
    rwa [h.height_eq hlast, h'.height_eq hlast]
  cases hstep with
  | book hcore => exact hkeep (Node.core_ledger hcore)
  | replaceVotes =>
    apply hkeep
    rw [Node.withoutVotes_eq]
  | storeVote | bufferVote =>
    apply hkeep
    rw [Node.withoutVotes_eq]
    rfl
  | extend block =>
    apply hlonger
    simp [Node.extended, Node.extendedBy, Node.written, Node.withEffect]
  | adopt hsource hreplay =>
    rw [h.standing, h'.standing]
    exact (hsource.standing_lt hv1 hinert hsync).le
  | @applySnapshot chain ledger hoffered hcarried hvalid hadopt =>
    have hbetter : shouldAdoptSnapshot n.ledger.snapshot chain.snapshot = true := by
      simpa [shouldAdoptChainSnapshot, hv1] using hadopt
    have hreplayed : ledger.snapshot = chain.snapshot := validateChainSnapshot_snapshot hvalid
    have hlt := shouldAdoptSnapshot_iff.1 hbetter
    rw [← hreplayed] at hlt
    exact hlt.le
  | @applySegment base blocks baseTip baseLedger ledger hcarried hbase hreplay hblocks =>
    cases hbase with
    | certified hqc =>
      rw [hinert.highestLocalQc] at hqc
      cases hqc
    | whole =>
      cases blocks with
      | nil =>
        -- an empty segment leaves the ledger that the chain replays to
        cases hblocks
        exact hkeep (Except.ok.inj (hreplay.symm.trans h.replay))
      | cons block blocks =>
        apply hlonger
        simp [Node.segmented, Node.withSegment, Node.rebuildSeenSets, Node.written, Node.withEffect]
  | _ => exact hkeep rfl

end

/-! ## Events -/

/-- What reaches a node without `consensus_v2`: no votes and no certified suffixes. -/
def plainSource (E : Env) (S : Set Block) : Source where
  blocks := {b | b ∈ S ∧ (validateReceivedBlock E b = .ok () → Numbered E.hashing S b)}
  carried := S
  votes := ∅
  suffixes _ := ∅

/-- The chain is numbered, and there is nothing but the chain. -/
structure Grounded (E : Env) (S : Set Block) (n : Node) : Prop where
  numbered : NumberInv E S n
  inert : Inert n
  covers : (plainSource E S).Covers n

/-- From grounded states on, nodes stay grounded and do not fall back. -/
def Rises (E : Env) (S : Set Block) (n n' : Node) : Prop :=
  Grounded E S n → Grounded E S n' ∧ n.standing ≤ n'.standing

section
variable (hv1 : E.v2 = false) (hS : CollisionFree E.hashing S)
  (hlast : ∀ b ∈ S, b.header.blockNumber + 1 < 2 ^ 64) (hvalidators : E.genesis.validators ≠ [])
include hv1 hS hlast hvalidators

theorem Grounded.step (h : Grounded E S n) (hown : ∀ b ∈ n.builtBlocks, b ∈ S)
    (hsigned : n.signedVotes = []) (hstep : Step E (plainSource E S) n n') :
    Grounded E S n' ∧ n.standing ≤ n'.standing := by
  have hnumbered : NumberInv E S n' := by
    refine h.numbered.step hS h.covers (fun b hb => ?_) (fun b hb => hb.2) hstep
    rcases hb with hb | hb | hb
    · exact hb.1
    · exact hb
    · exact hown b hb
  have hinert := h.inert.step hvalidators rfl hsigned hstep
  exact ⟨⟨hnumbered, hinert, hstep.covers h.covers⟩,
    hstep.standing_le hv1 h.inert (fun _ => rfl) hlast h.numbered hnumbered⟩

theorem Rises.of_steps (hown : ∀ b ∈ n'.builtBlocks, b ∈ S) (hsigned : n'.signedVotes = [])
    (h : Steps E (plainSource E S) n n') : Rises E S n n' := by
  intro hn
  induction h with
  | refl => exact ⟨hn, le_rfl⟩
  | @tail m n' hsteps hstep ih =>
    have hsuffix := hstep.effects_suffix
    have hown' (b : Block) (hb : b ∈ m.builtBlocks) : b ∈ S := hown b ((hsuffix.filterMap _).mem hb)
    have hvotes : m.signedVotes <:+ n'.signedVotes := hsuffix.filterMap _
    have hsigned' : m.signedVotes = [] := by
      rw [hsigned] at hvotes
      exact List.suffix_nil.1 hvotes
    obtain ⟨hm, hle⟩ := ih hown' hsigned'
    obtain ⟨hn', hle'⟩ := hm.step hv1 hS hlast hvalidators hown' hsigned' hstep
    exact ⟨hn', hle.trans hle'⟩

omit hv1 hS hlast hvalidators in
theorem Grounded.fresh (slot : Option Slot) (h : NumberInv E S (Node.fresh E slot)) :
    Grounded E S (Node.fresh E slot) := ⟨h, .fresh slot, Source.covers_fresh slot⟩

omit hv1 hS hlast hvalidators in
/-- What is left of an event comes from the plain source. -/
theorem plainSource_admits {event : Event} (h : NumberedFrom E S n event) :
    (plainSource E S).Admits E n event.plain where
  blocks block hb := by
    rw [event.gossiped_plain] at hb
    exact ⟨h.1 block (event.gossiped_subset hb), h.2 block hb⟩
  carried block hb := h.1 block (event.carried_subset (event.carried_plain hb))
  votes vote hvote := by
    rw [event.votes_plain] at hvote
    cases hvote
  snapshot _ _ _ _ := trivial
  suffix sender r he := by
    cases event with
    | received sender payload => cases payload <;> cases he
    | _ => cases he
  peers _ _ := trivial
  receipts _ _ _ _ _ _ _ := trivial
  transactions _ := trivial
  takes := trivial

theorem Reachable.rises (hn : Reachable E AnyEvent n) {fuel : Nat} {event : Event}
    (hevent : NumberedFrom E S n event)
    (hrun : ((handleEvent E fuel event).run n).state? = some n')
    (hown : ∀ b ∈ n'.builtBlocks, b ∈ S) : Rises E S n n' := by
  have hsigned : n'.signedVotes = [] := (Reachable.handle fuel event hn trivial hrun).signedVotes hv1
  intro h
  rw [← handleEvent_plain hv1] at hrun
  have hsteps := (handleEvent_moves fuel (plainSource_admits hevent)).of_state? hrun h.covers
  exact Rises.of_steps hv1 hS hlast hvalidators hown hsigned hsteps h

end

end

/-! ## Networks -/

namespace HonestNetwork

variable {N : HonestNetwork} {s s' : ClusterState} {i : ValidatorId}

/-- A node handles an event. -/
def Next (N : HonestNetwork) (s s' : ClusterState) : Prop :=
  ∃ fuel i event n', Delivers s i event ∧
    ((handleEvent (N.env i) fuel event).run (s i)).state? = some n' ∧ s' = Function.update s i n'

theorem Reachable.next (hs : N.Reachable s) (h : N.Next s s') : N.Reachable s' := by
  obtain ⟨fuel, i, event, n', hevent, hrun, rfl⟩ := h
  exact hs.handle fuel i event hevent hrun

theorem Reachable.run (hs : N.Reachable s) (h : ReflTransGen N.Next s s') : N.Reachable s' := by
  induction h with
  | refl => exact hs
  | tail _ hnext ih => exact ih.next hnext

theorem Reachable.builtBlocks_subset (hs : N.Reachable s) (h : ReflTransGen N.Next s s') :
    builtBlocks s ⊆ builtBlocks s' := by
  induction h with
  | refl => exact Set.Subset.refl _
  | tail hrun hnext ih =>
    have hm := hs.run hrun
    obtain ⟨fuel, i, event, n', hevent, hhandle, rfl⟩ := hnext
    exact ih.trans (builtBlocks_mono (effects_suffix_of_chain ((hm.node i).writes hhandle)))

/-- No node runs `consensus_v2`, the genesis has validators, and the blocks of `S` have neither equal
hashes nor the last number. -/
structure Plain (N : HonestNetwork) (S : Set Block) : Prop where
  v1 : ∀ i, (N.env i).v2 = false
  validators : ∀ i, (N.env i).genesis.validators ≠ []
  free : ∀ i, CollisionFree (N.env i).hashing S
  last : ∀ b ∈ S, b.header.blockNumber + 1 < 2 ^ 64

section
variable {S : Set Block} (hN : N.Plain S)
include hN

theorem Next.rises (hs : N.Reachable s) (h : N.Next s s') (hbuilt : builtBlocks s' ⊆ S)
    (i : ValidatorId) : Rises (N.env i) S (s i) (s' i) := by
  have hbefore := (hs.builtBlocks_subset (.single h)).trans hbuilt
  obtain ⟨fuel, j, event, n', hevent, hrun, rfl⟩ := h
  by_cases hij : i = j
  · subst hij
    rw [Function.update_self]
    refine (hs.node i).rises (hN.v1 i) (hN.free i) hN.last (hN.validators i)
      (hs.event_numbered hbefore (hs.numberInv hN.free hbefore) hevent) hrun fun b hb => hbuilt ⟨i, ?_⟩
    rwa [Function.update_self]
  · rw [Function.update_of_ne hij]
    exact fun h => ⟨h, le_rfl⟩

theorem Reachable.grounded (hs : N.Reachable s) (hbuilt : builtBlocks s ⊆ S) (i : ValidatorId) :
    Grounded (N.env i) S (s i) := by
  induction hs generalizing i with
  | fresh slots => exact .fresh _ ((Reachable.fresh slots).numberInv hN.free hbuilt i)
  | @handle s n' fuel j event hs hevent hrun ih =>
    have hnext : N.Next s (Function.update s j n') := ⟨fuel, j, event, n', hevent, hrun, rfl⟩
    have hbefore := (hs.builtBlocks_subset (.single hnext)).trans hbuilt
    exact (hnext.rises hN hs hbuilt i (ih hbefore i)).1

theorem Reachable.standing_le (hs : N.Reachable s) (hrun : ReflTransGen N.Next s s')
    (hbuilt : builtBlocks s' ⊆ S) (i : ValidatorId) : (s i).standing ≤ (s' i).standing := by
  induction hrun with
  | refl => exact le_rfl
  | tail hfirst hnext ih =>
    have hm := hs.run hfirst
    have hbefore := (hm.builtBlocks_subset (.single hnext)).trans hbuilt
    exact (ih hbefore).trans (hnext.rises hN hm hbuilt i (hm.grounded hN hbefore i)).2

end

/-- **Chains never fall back.** In a network of honest nodes without `consensus_v2` no node moves to a
chain that is not preferred to the one it has: along every run, heights, then slots, then tip hashes
only grow. -/
theorem chains_never_fall_back (N : HonestNetwork) (s s' : ClusterState) (hs : N.Reachable s)
    (hrun : ReflTransGen N.Next s s') (hN : N.Plain (builtBlocks s')) (i : ValidatorId) :
    (s i).standing ≤ (s' i).standing := hs.standing_le hN hrun (Set.Subset.refl _) i

/-! ## A run

Validator 4 builds the block of slot 0 and takes it, and the block is delivered to validator 1. -/

/-- The sample node without `consensus_v2`. -/
def plainEnv (validatorId : ValidatorId) : Env :=
  { sampleEnv validatorId with
    config :=
      { (sampleEnv validatorId).config with
        featureFlags := { sampleFlags with consensusV2 := false }
        syncOnStartup := true } }

def plainNetwork : HonestNetwork where
  env := plainEnv
  me _ := rfl
  alike _ _ := ⟨rfl, rfl, rfl, rfl⟩
  flags _ _ := rfl
  verifies := receiptEnv_verifies

def afterEvent (i : ValidatorId) (n : Node) (event : Event) : Option Node :=
  ((handleEvent (plainEnv i) 8 event).run n).state?

theorem next_of_afterEvent (event : Event) {n' : Node} (hevent : Delivers s i event)
    (h : afterEvent i (s i) event = some n') : plainNetwork.Next s (Function.update s i n') :=
  ⟨8, i, event, n', hevent, h, rfl⟩

def freshCluster : ClusterState := fun i => Node.fresh (plainEnv i) none

theorem freshCluster_reachable : plainNetwork.Reachable freshCluster := .fresh fun _ => none

/-- Where one block is all that was built, nothing else is asked of the network. -/
theorem plain_of_single (hown : (s i).builtBlocks.map (fun b =>
      (b.header.blockNumber, blockBodyHash rollingHashing b == empty_hash)) = [(1, false)])
    (hothers : ∀ j ≠ i, (s j).builtBlocks = []) : plainNetwork.Plain (builtBlocks s) := by
  obtain ⟨block, hblock⟩ := List.length_eq_one_iff.1 (by simpa using congrArg List.length hown)
  simp only [hblock, List.map_cons, List.map_nil, List.cons.injEq, Prod.mk.injEq, and_true,
    beq_eq_false_iff_ne] at hown
  obtain ⟨hnumber, hhash⟩ := hown
  have hbuilt (b : Block) (hb : b ∈ builtBlocks s) : b = block := by
    obtain ⟨j, hb⟩ := hb
    by_cases hj : j = i
    · rw [hj, hblock] at hb
      exact List.mem_singleton.1 hb
    · rw [hothers j hj] at hb
      cases hb
  have hvalidators : sampleGenesis.validators ≠ [] := by decide
  refine ⟨fun _ => rfl, fun _ => hvalidators, fun _ => ⟨?_, ?_⟩, ?_⟩
  · intro b hb c hc _
    rw [hbuilt b hb, hbuilt c hc]
    exact ⟨rfl, rfl, rfl⟩
  · intro b hb
    rw [hbuilt b hb]
    exact hhash
  · intro b hb
    rw [hbuilt b hb, hnumber]
    decide

/-- The builder of the block, the block and the node that receives it. -/
def delivery : Option (Node × Block × Node) := do
  let builder ← afterEvent 4 (.fresh (plainEnv 4) none) .slotTick
  let block ← builder.broadcastBlocks.head?
  let receiver ← afterEvent 1 (.fresh (plainEnv 1) none) (.received 4 (.blockProposal block))
  some (builder, block, receiver)

theorem delivery_run : delivery.map (fun d =>
    (d.1.builtBlocks.map fun b => (b.header.blockNumber, blockBodyHash rollingHashing b == empty_hash),
      d.2.2.builtBlocks.length, d.1.blocks.length, d.2.2.blocks.length)) =
        some ([(1, false)], 0, 1, 1) := by
  decide +kernel

/-- The builder is at its own block, and the receiver comes to it too. -/
theorem delivered_block_raises : ∃ s', ReflTransGen plainNetwork.Next freshCluster s' ∧
    (∀ i, (freshCluster i).blocks.length = 0) ∧ (s' 4).blocks.length = 1 ∧ (s' 1).blocks.length = 1 ∧
    (s' 1).builtBlocks = [] ∧ ∀ i, (freshCluster i).standing ≤ (s' i).standing := by
  obtain ⟨d, hd, hvalues⟩ := Option.map_eq_some_iff.1 delivery_run
  simp only [Prod.mk.injEq, List.length_eq_zero_iff] at hvalues
  obtain ⟨hbuilt, hnone, hbuilder, hreceiver⟩ := hvalues
  simp only [delivery, Option.bind_eq_bind, Option.bind_eq_some_iff] at hd
  obtain ⟨builder, hbuild, block, hblock, receiver, hreceive, h⟩ := hd
  cases h
  have hne : (1 : ValidatorId) ≠ 4 := by decide
  have hsent : .broadcast (.blockProposal block) ∈ builder.effects := by
    obtain ⟨e, he, heq⟩ := List.mem_filterMap.1 (List.mem_of_head? hblock)
    split at heq
    · cases heq
      exact he
    · cases heq
  have hfirst := next_of_afterEvent (s := freshCluster) .slotTick trivial hbuild
  have hsecond : plainNetwork.Next (Function.update freshCluster 4 builder)
      (Function.update (Function.update freshCluster 4 builder) 1 receiver) := by
    apply next_of_afterEvent (.received 4 (.blockProposal block))
    · exact .inl (by rwa [Function.update_self])
    · rwa [Function.update_of_ne hne]
  have hrun := ReflTransGen.tail (.single hfirst) hsecond
  have hplain : plainNetwork.Plain
      (builtBlocks (Function.update (Function.update freshCluster 4 builder) 1 receiver)) := by
    apply plain_of_single (i := 4)
    · rwa [Function.update_of_ne hne.symm, Function.update_self]
    · intro j hj
      by_cases h1 : j = 1
      · rw [h1, Function.update_self]
        exact hnone
      · rw [Function.update_of_ne h1, Function.update_of_ne hj]
        rfl
  refine ⟨_, hrun, fun _ => rfl, ?_, ?_, ?_,
    chains_never_fall_back plainNetwork _ _ freshCluster_reachable hrun hplain⟩
  · rwa [Function.update_of_ne hne.symm, Function.update_self]
  · rwa [Function.update_self]
  · rwa [Function.update_self]

end HonestNetwork

end Entangrid
