import Entangrid.Node.Proof.Proposal

/-!
# Blocks that execute

A block executes if its transactions and its state root replay on every chain that leads to it. Blocks
name their parents by hash, so there is one such chain, and one replay decides. While every known block
executes, every chain a node can build of them replays.

* `Executes E S block`: the block extends every replayed chain that leads to it.
* `ReplayInv`: the store and the votes are in order, and every known block executes.
* `Reachable.replayInv`: it holds as long as the blocks that arrive beside the tip execute.
-/

namespace Entangrid

open LedgerState
open Proc (Moves)

variable {E : Env} {S : Set Block} {block : Block} {chain : List Block} {ledger : LedgerState}

/-- Every replayed chain of `S` that leads to the block can be extended by it. -/
def Executes (E : Env) (S : Set Block) (block : Block) : Prop :=
  ∀ chain ledger, (∀ b ∈ chain, Sound E.hashing S b) → Linked empty_hash (chain ++ [block]) →
    replayBlocks E.hashing E.crypto E.genesis chain = .ok ledger →
    ∃ next, ledger.applyBlock E.hashing E.crypto block = .ok next

/-! ## Chains -/

/-- A linked chain of blocks that execute replays. -/
theorem replayBlocks_of_executes (hlinked : Linked empty_hash chain)
    (hsound : ∀ b ∈ chain, Sound E.hashing S b) (hexec : ∀ b ∈ chain, Executes E S b) :
    ∃ ledger, replayBlocks E.hashing E.crypto E.genesis chain = .ok ledger := by
  induction chain using List.reverseRecOn with
  | nil => exact ⟨_, rfl⟩
  | append_singleton chain b ih =>
    have hsound' (c : Block) (hc : c ∈ chain) : Sound E.hashing S c := hsound c (by simp [hc])
    obtain ⟨ledger, hledger⟩ :=
      ih (HashChain.linkedFrom_append.1 hlinked).1 hsound' fun c hc => hexec c (by simp [hc])
    obtain ⟨next, hnext⟩ := hexec b (by simp) chain ledger hsound' hlinked hledger
    refine ⟨next, ?_⟩
    rw [replayBlocks, applyBlocks_append hledger, applyBlocks, hnext]
    rfl

section
variable (hS : CollisionFree E.hashing S)
include hS

/-- Chains of the same hashes replay alike. -/
theorem CollisionFree.applyBlocks_eq {xs ys : List Block} (hx : ∀ b ∈ xs, Sound E.hashing S b)
    (hy : ∀ b ∈ ys, Sound E.hashing S b) (hmap : xs.map (·.blockHash) = ys.map (·.blockHash))
    (l : LedgerState) :
    l.applyBlocks E.hashing E.crypto xs = l.applyBlocks E.hashing E.crypto ys := by
  induction xs generalizing ys l with
  | nil =>
    cases ys with
    | nil => rfl
    | cons c ys => simp at hmap
  | cons b xs ih =>
    cases ys with
    | nil => simp at hmap
    | cons c ys =>
      simp only [List.map_cons, List.cons.injEq] at hmap
      obtain ⟨hhash, hrest⟩ := hmap
      have hb := hx b List.mem_cons_self
      have hc := hy c List.mem_cons_self
      obtain ⟨hheader, htransactions, -⟩ :=
        hS.injective b hb.1 c hc.1 (hb.2.trans (hhash.trans hc.2.symm))
      have happly (l : LedgerState) : l.applyBlock E.hashing E.crypto b =
          l.applyBlock E.hashing E.crypto c := by
        simp only [applyBlock, hheader, htransactions, hhash]
      simp only [applyBlocks, happly]
      congr 1
      funext l'
      exact ih (fun d hd => hx d (List.mem_cons_of_mem _ hd))
        (fun d hd => hy d (List.mem_cons_of_mem _ hd)) hrest l'

/-- One replayed chain decides. -/
theorem Executes.of_chain {next : LedgerState} (hsound : ∀ b ∈ chain, Sound E.hashing S b)
    (hlinked : Linked empty_hash (chain ++ [block]))
    (hreplay : replayBlocks E.hashing E.crypto E.genesis chain = .ok ledger)
    (happly : ledger.applyBlock E.hashing E.crypto block = .ok next) : Executes E S block := by
  intro other ledger' hother hlinked' hreplay'
  obtain ⟨hchain, htip, -⟩ := HashChain.linkedFrom_append.1 hlinked
  obtain ⟨hchain', htip', -⟩ := HashChain.linkedFrom_append.1 hlinked'
  have hmap : chain.map (·.blockHash) = other.map (·.blockHash) := by
    refine HashChain.map_hash_eq_of_linkedFrom (S := {b | Sound E.hashing S b}) ?_ ?_ hchain hchain'
      hsound hother (htip.symm.trans htip')
    · intro b hb c hc heq
      rw [hS.header_eq hb hc heq]
    · intro b hb heq
      exact hS.nonempty b hb.1 (hb.2.trans heq)
  have hsame := hS.applyBlocks_eq hsound hother hmap (.fromGenesis E.genesis)
  obtain rfl : ledger = ledger' := by
    have hboth : Except.ok ledger = Except.ok (ε := Error) ledger' := by
      rw [← hreplay, ← hreplay', replayBlocks, hsame, replayBlocks]
    exact Except.ok.inj hboth
  exact ⟨next, happly⟩

/-- The blocks of a replayed chain execute. -/
theorem Executes.of_mem (hsound : ∀ b ∈ chain, Sound E.hashing S b) (hlinked : Linked empty_hash chain)
    (hreplay : replayBlocks E.hashing E.crypto E.genesis chain = .ok ledger) (hb : block ∈ chain) :
    Executes E S block := by
  obtain ⟨front, rest, rfl⟩ := List.append_of_mem hb
  obtain ⟨l, hfront, hrest⟩ := applyBlocks_append_ok hreplay
  obtain ⟨l', happly, -⟩ := except_bind_ok.1 hrest
  obtain ⟨hlinkedFront, hparent, -⟩ := HashChain.linkedFrom_append.1 hlinked
  refine .of_chain hS (fun b hb => hsound b (List.mem_append_left _ hb)) ?_ hfront happly
  exact HashChain.linkedFrom_append.2 ⟨hlinkedFront, hparent, trivial⟩

/-- What sync validates executes. -/
theorem Executes.of_validated {A : Source} {n : Node} (h : StoreInv E n)
    (hknown : ∀ b ∈ n.knownBlocks, b ∈ S) (hcarried : ∀ b ∈ A.carried, b ∈ S)
    (hvalidated : Validated E A n block) : Executes E S block := by
  obtain ⟨base, suffix, start, l, l', hbase, hreplay, hvalid, hsuffix, hmem⟩ := hvalidated
  obtain ⟨hlinked, hhashed, happly⟩ := validateSnapshotBlocks_ok hvalid
  have hchain (b : Block) (hb : b ∈ n.blocks) : Sound E.hashing S b :=
    have hb' := Node.mem_knownBlocks.2 (.inl hb)
    ⟨hknown b hb', h.hashed b hb'⟩
  have hbaseMem (b : Block) (hb : b ∈ base) : Sound E.hashing S b := by
    rcases hbase with ⟨rfl, -⟩ | hbase
    · cases hb
    · exact hchain b (hbase.block hb)
  obtain ⟨hbaseLinked, rfl⟩ : Linked empty_hash base ∧ tipFrom empty_hash base = start := by
    rcases hbase with ⟨rfl, rfl⟩ | hbase
    · exact ⟨trivial, rfl⟩
    · exact hbase.linked h.toBlockStore
  have hwhole : Linked empty_hash (base ++ suffix) :=
    HashChain.linkedFrom_append.2 ⟨hbaseLinked, hlinked⟩
  refine .of_mem hS (fun b hb => ?_) hwhole ((applyBlocks_append hreplay).trans happly)
    (List.mem_append_right _ hmem)
  rcases List.mem_append.1 hb with hb | hb
  · exact hbaseMem b hb
  · exact ⟨(hsuffix b hb).elim (fun hb => (hchain b hb).1) (hcarried b), hhashed b hb⟩

end

/-! ## The invariant -/

/-- The store and the votes are in order, and every block the node has, had or built executes. -/
structure ReplayInv (E : Env) (S : Set Block) (n : Node) : Prop
    extends StoreInv E n, CertInv E S n where
  executes : n.AllBlocks (Executes E S)

namespace ReplayInv

variable {A : Source} {n n' : Node}

theorem fresh (slot : Option Slot) : ReplayInv E S (Node.fresh E slot) where
  toStoreInv := .fresh slot
  known := by simp [Node.knownBlocks, Node.fresh]
  taken := by simp [Node.takenOrphans, Node.fresh]
  written := by simp [Node.fresh]
  votes := by simp [Node.fresh]
  entries := .empty
  executes := .fresh slot

theorem soundChain (h : ReplayInv E S n) (b : Block) (hb : b ∈ n.blocks) : Sound E.hashing S b :=
  h.known b (Node.mem_knownBlocks.2 (.inl hb))

/-- Every chain that is built of known blocks replays. -/
theorem replays (h : ReplayInv E S n) {tip : HashBytes} (hchain : n.buildChainToTip tip = some chain) :
    ∃ ledger, replayBlocks E.hashing E.crypto E.genesis chain = .ok ledger := by
  have hmem (b : Block) (hb : b ∈ chain) : b ∈ n.knownBlocks := Node.buildChainToTip_known hchain hb
  exact replayBlocks_of_executes (linked_of_numberedFrom (Node.buildChainToTip_eq_some hchain).2.1)
    (fun b hb => h.known b (hmem b hb)) fun b hb => h.executes.known b (hmem b hb)

/-- A block that replays on the tip executes. -/
theorem executes_of_extends (hS : CollisionFree E.hashing S) (h : ReplayInv E S n)
    (hparent : block.header.parentHash = n.ledger.snapshot.tipHash)
    (happly : n.ledger.applyBlock E.hashing E.crypto block = .ok ledger) : Executes E S block := by
  refine .of_chain hS h.soundChain ?_ h.replay happly
  exact HashChain.linkedFrom_append.2 ⟨h.linked, hparent.trans h.tip, trivial⟩

theorem step (hS : CollisionFree E.hashing S) (h : ReplayInv E S n) (hstep : Step E A n n')
    (hknown : ∀ b ∈ n'.knownBlocks, b ∈ S)
    (hgossip : A.takesBlocks → ∀ b ∈ A.blocks, validateReceivedBlock E b = .ok () → Executes E S b)
    (hcarried : A.takesBlocks → ∀ b ∈ A.carried, b ∈ S) : ReplayInv E S n' where
  toStoreInv := h.toStoreInv.step hS hstep hknown
  toCertInv := h.toCertInv.step hS hstep hknown
  executes := by
    refine h.executes.step hstep hgossip (fun b hcarries hvalid => ?_)
      fun slot epoch timestamp b hbuild => ?_
    · exact .of_validated hS h.toStoreInv (fun b hb => (h.known b hb).1) (hcarried hcarries.takes) hvalid
    · obtain ⟨hparent, happly⟩ := applyBlock_of_buildProposal hbuild
      exact h.executes_of_extends hS hparent happly

/-- It is kept where no block enters the store. -/
theorem acts (hS : CollisionFree E.hashing S) (h : ReplayInv E S n) (hacts : Acts E blockless n n') :
    ReplayInv E S n' := by
  have hsteps : Steps E blockless n n' := hacts blockless_covers
  clear hacts
  induction hsteps with
  | refl => exact h
  | tail _ hstep ih =>
    exact ih.step hS hstep (ih.known_of_new hstep fun _ hnew => hnew.takes.elim)
      (fun htakes => htakes.elim) fun htakes => htakes.elim

/-- It is kept by a step that takes in one block that executes. -/
theorem takes (hS : CollisionFree E.hashing S) (h : ReplayInv E S n) (hblock : Sound E.hashing S block)
    (hexec : Executes E S block) (hstep : Step E { blocks := {block}, carried := ∅ } n n')
    (hknown : ∀ b ∈ n'.knownBlocks, b ∈ n.knownBlocks ∨ b = block) : ReplayInv E S n' := by
  refine h.step hS hstep (fun b hb => ?_) (fun _ b hb _ => ?_) fun _ b hb => hb.elim
  · rcases hknown b hb with hold | rfl
    · exact (h.known b hold).1
    · exact hblock.1
  · exact Set.mem_singleton_iff.1 hb ▸ hexec

/-- The mempool does not matter. -/
theorem cleared (h : ReplayInv E S n) (transactions : List SignedTransaction) (hashes : List HashBytes) :
    ReplayInv E S ((n.dropFromMempool transactions).withEffect (.mempoolCleared hashes)) where
  toStoreInv := h.toStoreInv.of_eq rfl rfl rfl
  known := h.known
  taken := h.taken
  written w hw := h.written w ((List.mem_cons.1 hw).resolve_left nofun)
  votes := h.votes
  entries := h.entries
  executes := ⟨h.executes.known, h.executes.taken, h.executes.built⟩

end ReplayInv

/-! ## Runs -/

/-- Blocks arrive from `S`, and a gossiped block that passes the checks of `accept_block` executes unless
its parent is the tip. -/
def ExecutesBesideTip (E : Env) (S : Set Block) (n : Node) (event : Event) : Prop :=
  BlocksFrom S n event ∧ ∀ block ∈ event.gossiped, validateReceivedBlock E block = .ok () →
    block.header.parentHash ≠ n.ledger.snapshot.tipHash → Executes E S block

/-- The blocks of `S` arrive, and the gossiped ones execute. -/
abbrev executing (E : Env) (S : Set Block) : Source :=
  { blocks := {b | b ∈ S ∧ (validateReceivedBlock E b = .ok () → Executes E S b)}, carried := S }

section
variable {n n' : Node}

theorem Event.eq_of_gossiped {event : Event} (h : block ∈ event.gossiped) :
    ∃ sender, event = .received sender (.blockProposal block) := by
  unfold Event.gossiped at h
  split at h
  · next sender b =>
    obtain rfl := List.mem_singleton.1 h
    exact ⟨sender, rfl⟩
  · cases h

/-- A block that does not replay on the tip is refused before anything is stored. -/
theorem acceptBlock_refused {R : Node → Node → Prop} [IsPreorder Node R] (fuel : Nat)
    (hparent : block.header.parentHash = n.ledger.snapshot.tipHash)
    (happly : ∀ l, n.ledger.applyBlock E.hashing E.crypto block ≠ .ok l) :
    Moves R (acceptBlock E fuel block false) n := Moves.read <| by
  by_cases hknown : (n.knownBlock block.blockHash).isSome
  · rw [if_pos hknown]
    exact Moves.pure _
  rw [if_neg hknown]
  refine Moves.ofExcept_bind fun _ _ => ?_
  rw [if_neg (by simpa using hparent)]
  refine Moves.ofExcept_bind fun ledger hledger => ?_
  obtain ⟨-, -, hok⟩ := except_bind_ok.1 hledger
  exact absurd hok (happly ledger)

theorem ReplayInv.covers (h : ReplayInv E S n) : (executing E S).Covers n where
  blocks b hb := .inr (.inl (h.known b hb).1)
  taken b hb := .inr (.inl (h.taken b hb))
  votes _ _ := .inl trivial
  certificates _ _ _ _ _ := .inl trivial

variable (hS : CollisionFree E.hashing S)
include hS

theorem ReplayInv.step_executing (h : ReplayInv E S n) (hstep : Step E (executing E S) n n')
    (hbuilt : ∀ b ∈ n.builtBlocks, b ∈ S) : ReplayInv E S n' := by
  refine h.step hS hstep (h.known_of_new hstep fun b hnew => ?_) (fun _ b hb => hb.2) fun _ b hb => hb
  exact (hnew.arrived h.covers).elim (·.1) (Or.elim · id (hbuilt b))

/-- An event of such a run is handled along every relation that allows blocks that execute. -/
theorem ReplayInv.handleEvent_moves {R : Node → Node → Prop} [IsPreorder Node R] (h : ReplayInv E S n)
    (hR : Handles E (executing E S) R) {event : Event} (hevent : ExecutesBesideTip E S n event)
    (fuel : Nat) : Moves R (handleEvent E fuel event) n := by
  by_cases hgossip : ∀ b ∈ event.gossiped, validateReceivedBlock E b = .ok () → Executes E S b
  · refine hR.handleEvent fuel ?_
    exact
      { blocks := fun b hb => ⟨hevent.1 b (event.gossiped_subset hb), hgossip b hb⟩
        carried := fun b hb => hevent.1 b (event.carried_subset hb) }
  · push Not at hgossip
    obtain ⟨block, hblock, hvalid, hnot⟩ := hgossip
    have hparent : block.header.parentHash = n.ledger.snapshot.tipHash :=
      not_not.1 fun hbeside => hnot (hevent.2 block hblock hvalid hbeside)
    obtain ⟨sender, rfl⟩ := Event.eq_of_gossiped hblock
    refine hR.received fuel fun m hcore _ => ?_
    refine hR.handleBlockProposal fuel sender trivial (fun m' hledger => ?_)
      fun _ _ _ _ => trivial
    have hsame : m'.ledger = n.ledger := hledger.trans (Node.core_ledger hcore)
    refine acceptBlock_refused fuel (by rw [hsame, hparent]) fun l happly => hnot ?_
    exact h.executes_of_extends hS hparent (hsame ▸ happly)

/-- **While the blocks that arrive beside the tip execute, every known block does.** -/
theorem Reachable.replayInv (hn : Reachable E (ExecutesBesideTip E S) n)
    (hown : ∀ b ∈ n.builtBlocks, b ∈ S) : ReplayInv E S n := by
  induction hn with
  | fresh slot => exact .fresh slot
  | @handle n n' fuel event _ hevent hrun ih =>
    have hany : Steps E {} n n' := (Entangrid.handleEvent_moves fuel (admits_any n event trivial)).of_state?
      hrun (Source.covers_of_univ rfl rfl n)
    have hn := ih fun b hb => hown b (((Steps.effects_suffix hany).filterMap _).mem hb)
    have hsteps := (hn.handleEvent_moves hS (Acts.handles trivial trivial) hevent fuel).of_state? hrun hn.covers
    clear hany hrun ih
    induction hsteps with
    | refl => exact hn
    | @tail m m' _ hstep ih =>
      have hbuilt (b : Block) (hb : b ∈ m.builtBlocks) : b ∈ S :=
        hown b ((hstep.effects_suffix.filterMap _).mem hb)
      exact (ih hbuilt).step_executing hS hstep hbuilt

end

/-- What is asked of a node that votes: its hash tells the blocks of `S` apart, its signatures verify, and
what it built is in `S`. -/
structure Orderly (E : Env) (S : Set Block) (n : Node) : Prop where
  hashes : CollisionFree E.hashing S
  signs : SignsCorrectly E
  built : ∀ b ∈ n.builtBlocks, b ∈ S

/-- With `consensus_v2`, blocks arrive from `S`, and those that arrive beside the tip execute. -/
def SafelyArrives (E : Env) (S : Set Block) (n : Node) (event : Event) : Prop :=
  E.v2 = true → ExecutesBesideTip E S n event

theorem Orderly.replayInv {n : Node} (h : Orderly E S n) (hv2 : E.v2 = true)
    (hn : Reachable E (SafelyArrives E S) n) : ReplayInv E S n :=
  (hn.mono fun _ _ harrives => harrives hv2).replayInv h.hashes h.built

end Entangrid
