import Entangrid.Node.Proof.BlockStore

/-!
# Block numbers are positions

Sync checks the number of every block it validates, the live path does not. So the blocks of the
chain are numbered by their positions as long as the blocks that peers gossip are numbered one above
their parents.

* `Numbered H S block`: the number is one above that of the parent.
* `block_numbers_are_positions`: what follows for the states of a run.
-/

namespace Entangrid

open LedgerState

/-- A block is numbered one above the block of `S` that it names as parent, and 1 on the empty
hash. -/
structure Numbered (H : Hashing) (S : Set Block) (block : Block) : Prop where
  first : block.header.parentHash = empty_hash → block.header.blockNumber = 1
  next : ∀ parent ∈ S, Hashed H parent → parent.blockHash = block.header.parentHash →
    block.header.blockNumber = u64Add parent.header.blockNumber 1

/-- A ledger with the number of the block that `start` names. -/
structure AtTip (H : Hashing) (S : Set Block) (ledger : LedgerState) (start : HashBytes) : Prop where
  empty : start = empty_hash → ledger.blockHeight = 0
  tip : ∀ parent ∈ S, Hashed H parent → parent.blockHash = start →
    ledger.blockHeight = parent.header.blockNumber

section
variable {E : Env} {S : Set Block}

/-! ## Chains -/

/-- The block after a tip is numbered one above it. -/
theorem AtTip.numbered {ledger : LedgerState} {start : HashBytes} {block : Block}
    (h : AtTip E.hashing S ledger start) (hparent : block.header.parentHash = start)
    (hnumber : block.header.blockNumber = u64Add ledger.blockHeight 1) :
    Numbered E.hashing S block where
  first hempty := by
    rw [hnumber, h.empty (hparent.symm.trans hempty)]
    rfl
  next parent hp hh heq := by rw [hnumber, h.tip parent hp hh (heq.trans hparent)]

/-- In a linked chain of such blocks, numbers are positions. -/
theorem blockNumber_of_numbered {chain : List Block} (hlinked : Linked empty_hash chain)
    (hchain : ∀ b ∈ chain, b ∈ S ∧ Hashed E.hashing b)
    (hnumbered : ∀ b ∈ chain, Numbered E.hashing S b) {i : Nat} {block : Block}
    (hi : chain[i]? = some block) : block.header.blockNumber = (i + 1) % 2 ^ 64 := by
  induction chain using List.reverseRecOn generalizing i block with
  | nil => simp at hi
  | append_singleton chain b ih =>
    obtain ⟨hlinked, hparent, -⟩ := HashChain.linkedFrom_append.1 hlinked
    have ih' {j : Nat} {c : Block} (hj : chain[j]? = some c) :=
      ih hlinked (fun c hc => hchain c (by simp [hc])) (fun c hc => hnumbered c (by simp [hc])) hj
    rcases Nat.lt_or_ge i chain.length with hlt | hge
    · rw [List.getElem?_append_left hlt] at hi
      exact ih' hi
    rw [List.getElem?_append_right hge] at hi
    obtain ⟨hzero, rfl⟩ : i - chain.length = 0 ∧ b = block := by
      cases hd : i - chain.length with
      | zero => simpa [hd] using hi
      | succ d => simp [hd] at hi
    have hb := hnumbered b (by simp)
    rcases chain.eq_nil_or_concat with rfl | ⟨front, c, rfl⟩
    · rw [hb.first hparent, show i = 0 by simpa using hzero]
      rfl
    · -- the block before it is numbered by its own position
      rw [List.concat_eq_append] at hparent hzero hge ih' hchain
      obtain ⟨hc, hch⟩ := hchain c (by simp)
      have hlast : c.header.blockNumber = (front.length + 1) % 2 ^ 64 := ih' (by simp)
      have hname : c.blockHash = b.header.parentHash := by simpa using hparent.symm
      rw [hb.next c hc hch hname, hlast, u64Add]
      have : i = front.length + 1 := by
        simp only [List.length_append, List.length_cons, List.length_nil] at hzero hge
        omega
      rw [this]
      omega

section
variable (hS : CollisionFree E.hashing S)
include hS

theorem AtTip.genesis : AtTip E.hashing S (.fromGenesis E.genesis) empty_hash where
  empty _ := rfl
  tip parent hp hh hempty := absurd (hh.trans hempty) (hS.nonempty parent hp)

/-- After a block was applied, the ledger has its number. -/
theorem AtTip.applied {ledger ledger' : LedgerState} {block : Block} (hb : block ∈ S)
    (hh : Hashed E.hashing block) (h : ledger.applyBlock E.hashing E.crypto block = .ok ledger') :
    AtTip E.hashing S ledger' block.blockHash := by
  obtain ⟨l, -, -, rfl⟩ := applyBlock_ok h
  refine ⟨fun hempty => absurd (hh.trans hempty) (hS.nonempty block hb), fun parent hp hph heq => ?_⟩
  have hbody : blockBodyHash E.hashing block = blockBodyHash E.hashing parent := by
    rw [hh, hph, heq]
  exact congrArg BlockHeader.blockNumber (hS.injective block hb parent hp hbody).1

theorem AtTip.replayed {ledger ledger' : LedgerState} {start : HashBytes} {chain : List Block}
    (h : AtTip E.hashing S ledger start) (hchain : ∀ b ∈ chain, b ∈ S ∧ Hashed E.hashing b)
    (happly : ledger.applyBlocks E.hashing E.crypto chain = .ok ledger') :
    AtTip E.hashing S ledger' (tipFrom start chain) := by
  induction chain generalizing ledger start with
  | nil =>
    cases happly
    exact h
  | cons b chain ih =>
    obtain ⟨l, hb, happly⟩ := except_bind_ok.1 happly
    have hbS := hchain b (by simp)
    exact ih (.applied hS hbS.1 hbS.2 hb) (fun c hc => hchain c (by simp [hc])) happly

/-- The blocks of a validated chain are numbered one above their parents. -/
theorem validateSnapshotBlocks_numbered {ledger ledger' : LedgerState} {start : HashBytes}
    {chain : List Block} (hstart : AtTip E.hashing S ledger start) (hchain : ∀ b ∈ chain, b ∈ S)
    (h : validateSnapshotBlocks E ledger start chain = .ok ledger') :
    ∀ b ∈ chain, Numbered E.hashing S b := by
  induction chain generalizing ledger start with
  | nil => simp
  | cons b chain ih =>
    obtain ⟨_, hblock, h⟩ := except_bind_ok.1 h
    obtain ⟨l, hb, h⟩ := except_bind_ok.1 h
    simp only [validateSnapshotBlock, except_bind_ok, rejectIf_ok] at hblock
    obtain ⟨_, hhash, _, -, _, hnumber, _, hbasic, -⟩ := hblock
    have hh : Hashed E.hashing b := by simpa [Hashed] using hhash
    refine List.forall_mem_cons.2 ⟨?_, ih (.applied hS (hchain b (by simp)) hh hb)
      (fun c hc => hchain c (by simp [hc])) h⟩
    exact hstart.numbered (validateBlockBasic_parent hbasic) (by simpa using hnumber)

/-! ## Steps -/

/-- The store is in order, and every block the node has, had or built is numbered. -/
structure NumberInv (E : Env) (S : Set Block) (n : Node) : Prop extends StoreInv E n where
  arrived : ∀ block ∈ n.knownBlocks, block ∈ S
  known : ∀ block ∈ n.knownBlocks, Numbered E.hashing S block
  taken : ∀ block ∈ n.takenOrphans, Numbered E.hashing S block
  built : ∀ block ∈ n.builtBlocks, Numbered E.hashing S block

variable {A : Source} {n n' : Node}

/-- The ledger of a node has the number of the block at its tip. -/
theorem StoreInv.atTip (h : StoreInv E n) (hknown : ∀ b ∈ n.knownBlocks, b ∈ S) :
    AtTip E.hashing S n.ledger n.ledger.snapshot.tipHash := by
  rw [h.tip]
  refine (AtTip.genesis hS).replayed hS (fun b hb => ?_) h.replay
  have hb' := Node.mem_knownBlocks.2 (.inl hb)
  exact ⟨hknown b hb', h.hashed b hb'⟩

theorem numbered_of_validated (hsource : ∀ b ∈ A.carried, b ∈ S) (h : StoreInv E n)
    (hknown : ∀ b ∈ n.knownBlocks, b ∈ S) {block : Block} (hv : Validated E A n block) :
    Numbered E.hashing S block := by
  obtain ⟨base, suffix, start, ledger, ledger', hbase, hreplay, hvalid, hsuffix, hmem⟩ := hv
  have hchain (b : Block) (hb : b ∈ n.blocks) : b ∈ S ∧ Hashed E.hashing b :=
    have hb' := Node.mem_knownBlocks.2 (.inl hb)
    ⟨hknown b hb', h.hashed b hb'⟩
  have hstart : AtTip E.hashing S ledger start := by
    rcases hbase with ⟨rfl, rfl⟩ | hbase
    · cases hreplay
      exact .genesis hS
    · rw [← (hbase.linked h.toBlockStore).2]
      exact (AtTip.genesis hS).replayed hS (fun b hb => hchain b (hbase.block hb)) hreplay
  exact validateSnapshotBlocks_numbered hS hstart
    (fun b hb => (hsuffix b hb).elim (fun hb => (hchain b hb).1) (hsource b)) hvalid block hmem

theorem NumberInv.step (hc : A.Covers n) (hsource : ∀ b, A.Arrived n b → b ∈ S)
    (hgossip : ∀ b ∈ A.blocks, validateReceivedBlock E b = .ok () → Numbered E.hashing S b)
    (h : NumberInv E S n) (hstep : Step E A n n') : NumberInv E S n' := by
  have hknown := hstep.known_of_arrived hc hsource
  have hall : n.AllBlocks (Numbered E.hashing S) := ⟨h.known, h.taken, h.built⟩
  obtain ⟨hknown', htaken', hbuilt'⟩ := hall.step hstep (fun _ => hgossip)
    (fun b _ hvalid => numbered_of_validated hS (fun b hb => hsource b (.inr (.inl hb)))
      h.toStoreInv h.arrived hvalid)
    (fun slot epoch timestamp b hbuild => by
      obtain ⟨_, -, hbuild⟩ := except_bind_ok.1 hbuild
      obtain rfl := Except.ok.inj hbuild
      exact (h.toStoreInv.atTip hS h.arrived).numbered rfl rfl)
  exact ⟨h.toStoreInv.step hS hstep hknown, hknown, hknown', htaken', hbuilt'⟩

/-- Blocks arrive from `S`, and a gossiped block that passes the checks of `accept_block` is numbered
one above its parent. -/
def NumberedFrom (E : Env) (S : Set Block) (n : Node) (event : Event) : Prop :=
  BlocksFrom S n event ∧ ∀ block ∈ event.gossiped, validateReceivedBlock E block = .ok () →
    Numbered E.hashing S block

theorem Reachable.numberInv (hn : Reachable E (NumberedFrom E S) n)
    (hown : ∀ block ∈ n.builtBlocks, block ∈ S) : NumberInv E S n := by
  refine hn.invariant
    (A := { blocks := {b | b ∈ S ∧ (validateReceivedBlock E b = .ok () → Numbered E.hashing S b)}
            carried := S })
    (I := fun n => (∀ block ∈ n.builtBlocks, block ∈ S) → NumberInv E S n)
    (fun n event hP => ?_) (fun slot _ => ?_) (fun n n' hc ih hstep hown' => ?_) hown
  · exact
      { blocks := fun b hb => ⟨hP.1 b (event.gossiped_subset hb), hP.2 b hb⟩
        carried := fun b hb => hP.1 b (event.carried_subset hb) }
  · obtain ⟨hknown, htaken, hbuilt⟩ : (Node.fresh E slot).AllBlocks (Numbered E.hashing S) :=
      .fresh slot
    exact ⟨.fresh slot, by simp [Node.knownBlocks, Node.fresh], hknown, htaken, hbuilt⟩
  · have hown : ∀ block ∈ n.builtBlocks, block ∈ S := fun block hb =>
      hown' block ((hstep.effects_suffix.filterMap _).mem hb)
    refine (ih hown).step hS hc (fun b hb => ?_) (fun b hb => hb.2) hstep
    rcases hb with hb | hb | hb
    · exact hb.1
    · exact hb
    · exact hown b hb

end

/-! ## What the numbers are used for -/

/-- Where the height is the length of the chain, the base of a segment is a slice in range. -/
theorem syncRepairBaseForSegment_no_panic {n : Node}
    (hheight : n.ledger.snapshot.height ≤ n.blocks.length) (chain : ChainSegment) :
    (syncRepairBaseForSegment E chain).run n ≠ .panic := by
  unfold syncRepairBaseForSegment
  rw [Proc.run_get_bind]
  split
  · simp
  · next qc _ =>
    split_ifs with hbase
    · rw [slicePrefix, if_pos (by omega), Proc.run_bind_of_ok (Proc.run_pure _ _)]
      cases LedgerState.replayBlocks E.hashing E.crypto E.genesis
        (n.blocks.take qc.blockNumber) <;> simp [NodeM.check, Proc.ofExcept, Proc.run, bind]
    · simp

/-- **Block numbers are positions.** In every run in which the gossiped blocks are numbered one above
their parents, the block at index `i` of the chain has number `i + 1`, the height is the length, the
slice of the segment base is in range and the chain to the tip is the chain. -/
theorem block_numbers_are_positions (E : Env) (S : Set Block) (hS : CollisionFree E.hashing S)
    (n : Node) (hn : Reachable E (NumberedFrom E S) n) (hown : ∀ block ∈ n.builtBlocks, block ∈ S)
    (hlen : n.blocks.length < 2 ^ 64) :
    (∀ i block, n.blocks[i]? = some block → block.header.blockNumber = i + 1) ∧
    n.ledger.snapshot.height = n.blocks.length ∧
    (∀ chain, (syncRepairBaseForSegment E chain).run n ≠ .panic) ∧
    n.buildChainToTip n.ledger.snapshot.tipHash = some n.blocks := by
  have h := hn.numberInv hS hown
  have hmem (b : Block) (hb : b ∈ n.blocks) : b ∈ n.knownBlocks := Node.mem_knownBlocks.2 (.inl hb)
  have hchain (b : Block) (hb : b ∈ n.blocks) : b ∈ S ∧ Hashed E.hashing b :=
    ⟨h.arrived b (hmem b hb), h.hashed b (hmem b hb)⟩
  have hpositions (i : Nat) (block : Block) (hi : n.blocks[i]? = some block) :
      block.header.blockNumber = i + 1 := by
    have hlt := (List.getElem?_eq_some_iff.1 hi).1
    rw [blockNumber_of_numbered h.linked hchain (fun b hb => h.known b (hmem b hb)) hi]
    exact Nat.mod_eq_of_lt (by omega)
  have hheight : n.ledger.snapshot.height = n.blocks.length := by
    have htip := h.toStoreInv.atTip hS h.arrived
    rw [h.tip] at htip
    rcases n.blocks.eq_nil_or_concat with hnil | ⟨front, b, hlast⟩
    · rw [hnil]
      exact htip.empty (by rw [hnil]; rfl)
    · rw [List.concat_eq_append] at hlast
      have hb : n.blocks[front.length]? = some b := by simp [hlast]
      obtain ⟨hbS, hbh⟩ := hchain b (List.mem_of_getElem? hb)
      have hnumber := htip.tip b hbS hbh (by rw [hlast]; simp)
      rw [hpositions _ _ hb] at hnumber
      rw [hlast, List.length_append]
      exact hnumber
  refine ⟨hpositions, hheight, syncRepairBaseForSegment_no_panic hheight.le, ?_⟩
  have hempty (b : Block) (hb : b ∈ n.blocks) : b.blockHash ≠ empty_hash := fun heq =>
    hS.nonempty b (hchain b hb).1 ((hchain b hb).2.trans heq)
  have hnumbered : numberedFrom empty_hash 1 n.blocks = true :=
    numberedFrom_of_linked h.linked fun i block hi => by rw [hpositions i block hi, Nat.add_comm]
  rw [h.tip]
  exact Node.buildChainToTip_of_numbered hnumbered fun b hb =>
    ⟨hempty b hb, (Node.HashesIdentify.of_nodup h.distinct).blockByHash (hmem b hb)⟩

end

/-! ## Runs -/

theorem numbered_first_second {block : Block} (hb : block = firstBlock ∨ block = secondBlock) :
    Numbered rollingHashing {b | b = firstBlock ∨ b = secondBlock} block := by
  have hfirst : firstBlock.blockHash ≠ empty_hash := by decide +kernel
  have hparents : secondBlock.blockHash ≠ empty_hash ∧
      secondBlock.blockHash ≠ firstBlock.blockHash := by decide +kernel
  rcases hb with rfl | rfl
  · refine ⟨fun _ => rfl, ?_⟩
    rintro parent (rfl | rfl) - heq
    · exact absurd heq hfirst
    · exact absurd heq hparents.1
  · refine ⟨fun heq => absurd heq hfirst, ?_⟩
    rintro parent (rfl | rfl) - heq
    · rfl
    · exact absurd heq hparents.2

/-- The two blocks of the sample network, each numbered one above its parent. -/
theorem two_blocks_numbered : ∃ n,
    runEvents (sampleEnv 1) 8 [.received 2 (.blockProposal secondBlock),
      .received 4 (.blockProposal firstBlock)] (.fresh (sampleEnv 1) (some 1)) = some n ∧
    n.ledger.snapshot.height = 2 ∧ n.blocks.length = 2 ∧
    n.buildChainToTip n.ledger.snapshot.tipHash = some n.blocks := by
  obtain ⟨n, hn, hlen⟩ := twoBlocks_run
  have hreachable : Reachable (sampleEnv 1)
      (NumberedFrom (sampleEnv 1) {b | b = firstBlock ∨ b = secondBlock}) n := by
    refine Reachable.runEvents (.fresh _) (fun event hevent n => ?_) hn
    simp only [List.mem_cons, List.not_mem_nil, or_false] at hevent
    rcases hevent with rfl | rfl
    · refine ⟨fun block hb => .inr (by simpa [Event.blocks] using hb), fun block hb _ => ?_⟩
      exact numbered_first_second (.inr (by simpa [Event.gossiped] using hb))
    · refine ⟨fun block hb => .inl (by simpa [Event.blocks] using hb), fun block hb _ => ?_⟩
      exact numbered_first_second (.inl (by simpa [Event.gossiped] using hb))
  obtain ⟨-, hheight, -, hchain⟩ := block_numbers_are_positions (sampleEnv 1)
    {b | b = firstBlock ∨ b = secondBlock} collisionFree_first_second n hreachable
    (by simp [hlen.2]) (by rw [hlen.1]; decide)
  exact ⟨n, hn, hheight.trans hlen.1, hlen.1, hchain⟩

/-- A first block with number 7 that its proposer signed becomes canonical: the block at index 0 has
number 7, the height is 7, and no chain to the tip can be built. -/
theorem misnumbered_block_becomes_canonical : ∃ n, Reachable (sampleEnv 1)
      (BlocksFrom {emptyBlock 7 empty_hash 0}) n ∧
    CollisionFree (sampleEnv 1).hashing {emptyBlock 7 empty_hash 0} ∧ n.builtBlocks = [] ∧
    (∃ block, n.blocks[0]? = some block ∧ block.header.blockNumber = 7) ∧
    n.ledger.snapshot.height = 7 ∧ n.blocks.length = 1 ∧
    n.buildChainToTip n.ledger.snapshot.tipHash = none := by
  have hrun : (runEvents (sampleEnv 1) 8 [.received 4 (.blockProposal (emptyBlock 7 empty_hash 0))]
      (.fresh (sampleEnv 1) (some 1))).map (fun n => (n.builtBlocks.length,
        n.blocks[0]?.map (·.header.blockNumber), n.ledger.snapshot.height, n.blocks.length,
        (n.buildChainToTip n.ledger.snapshot.tipHash).isNone)) = some (0, some 7, 7, 1, true) := by
    decide +kernel
  obtain ⟨n, hn, hvalues⟩ := Option.map_eq_some_iff.1 hrun
  simp only [Prod.mk.injEq, List.length_eq_zero_iff, Option.map_eq_some_iff,
    Option.isNone_iff_eq_none] at hvalues
  refine ⟨n, Reachable.runEvents (.fresh _) ?_ hn, ⟨?_, ?_⟩, hvalues⟩
  · rintro event hevent n block hblock
    obtain rfl := List.mem_singleton.1 hevent
    simpa [Event.blocks] using hblock
  · rintro b rfl c rfl -
    exact ⟨rfl, rfl, rfl⟩
  · rintro b rfl
    decide +kernel

end Entangrid
