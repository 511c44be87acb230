import Entangrid.Node.Proof.Numbering
import Entangrid.Node.Proof.ReceiptStore

/-!
# What a node exports, its peers import

Two validators check blocks: `accept_block` those that arrive one by one, `validate_snapshot_block`
those of a snapshot. They differ in two points. Only sync compares the number of a block with its
position, and only the live path scores commitments with the configured weights; sync uses the default
ones.

* `validateSnapshotBlock_ok`: what the check of a snapshot's block says of the block alone, and what
  of its position.
* `export_is_importable`: where the two points do not matter, `validate_chain_snapshot` accepts what
  `build_chain_snapshot` exports.
-/

namespace Entangrid

open LedgerState

section
variable {E : Env} {S : Set Block}

/-- The checks of `validate_snapshot_block` that do not depend on the position. -/
structure Importable (E : Env) (block : Block) : Prop where
  hashed : Hashed E.hashing block
  signed : SignedBySlotProposer E block
  transactionsRoot :
    E.hashing.canonicalHash (.transactions block.transactions) = block.header.transactionsRoot
  topologyRoot : topologyRootOf E.hashing block = block.header.topologyRoot
  commitment : validateBlockCommitment E defaultServiceScoreWeights block = .ok ()

theorem validateSnapshotBlock_ok {ledger : LedgerState} {block : Block} {parent : HashBytes} :
    validateSnapshotBlock E ledger block parent = .ok () ↔ Importable E block ∧
      block.header.blockNumber = u64Add ledger.blockHeight 1 ∧ block.header.parentHash = parent := by
  simp only [validateSnapshotBlock, ConsensusEngine.validateBlockBasic, except_bind_ok, rejectIf_ok,
    verifySignature_ok, bne_eq_false_iff_eq, Bool.false_and, exists_const]
  constructor
  · rintro ⟨hhash, hsigned, hnumber, ⟨hproposer, hparent, -⟩, htransactions, htopology, hcommitment⟩
    exact ⟨⟨hhash, ⟨hproposer, hsigned⟩, htransactions, htopology, hcommitment⟩, hnumber, hparent⟩
  · rintro ⟨h, hnumber, hparent⟩
    exact ⟨h.hashed, h.signed.2, hnumber, ⟨h.signed.1, hparent, trivial⟩, h.transactionsRoot,
      h.topologyRoot, h.commitment⟩

/-- A block that `accept_block` takes is importable up to the weights of its commitment. -/
theorem importable_of_validateReceivedBlock {block : Block}
    (h : validateReceivedBlock E block = .ok ())
    (hcommitment : validateBlockCommitment E defaultServiceScoreWeights block = .ok ()) :
    Importable E block := by
  have hhash := hashed_of_validateReceivedBlock h
  simp only [validateReceivedBlock, except_bind_ok, rejectIf_ok, verifySignature_ok,
    bne_eq_false_iff_eq, exists_const] at h
  obtain ⟨-, hsigned, hproposer, htransactions, htopology, -⟩ := h
  exact ⟨hhash, ⟨hproposer, hsigned⟩, htransactions, htopology, hcommitment⟩

/-! ## Chains -/

/-- `start` is the empty hash or names a block of `S`. -/
def Named (H : Hashing) (S : Set Block) (start : HashBytes) : Prop :=
  start = empty_hash ∨ ∃ parent ∈ S, Hashed H parent ∧ parent.blockHash = start

theorem Numbered.blockNumber {ledger : LedgerState} {start : HashBytes} {block : Block}
    (h : Numbered E.hashing S block) (htip : AtTip E.hashing S ledger start)
    (hnamed : Named E.hashing S start) (hparent : block.header.parentHash = start) :
    block.header.blockNumber = u64Add ledger.blockHeight 1 := by
  rcases hnamed with rfl | ⟨parent, hp, hph, rfl⟩
  · rw [h.first hparent, htip.empty rfl]
    rfl
  · rw [h.next parent hp hph hparent.symm, htip.tip parent hp hph rfl]

/-- A linked chain of importable, numbered blocks that replays is validated. -/
theorem validateSnapshotBlocks_of_replay (hS : CollisionFree E.hashing S)
    {ledger ledger' : LedgerState} {start : HashBytes} {chain : List Block}
    (htip : AtTip E.hashing S ledger start) (hnamed : Named E.hashing S start)
    (hlinked : Linked start chain) (hchain : ∀ b ∈ chain, b ∈ S ∧ Importable E b)
    (hnumbered : ∀ b ∈ chain, Numbered E.hashing S b)
    (happly : ledger.applyBlocks E.hashing E.crypto chain = .ok ledger') :
    validateSnapshotBlocks E ledger start chain = .ok ledger' := by
  induction chain generalizing ledger start with
  | nil => exact happly
  | cons b chain ih =>
    obtain ⟨l, hb, happly⟩ := except_bind_ok.1 happly
    obtain ⟨hparent, hlinked⟩ := hlinked
    obtain ⟨⟨hbS, himport⟩, hchain⟩ := List.forall_mem_cons.1 hchain
    obtain ⟨hnumber, hnumbered⟩ := List.forall_mem_cons.1 hnumbered
    have hvalid := validateSnapshotBlock_ok.2
      ⟨himport, hnumber.blockNumber htip hnamed hparent, hparent⟩
    have hrest := ih (.applied hS hbS himport.hashed hb) (.inr ⟨b, hbS, himport.hashed, rfl⟩) hlinked
      hchain hnumbered happly
    simp only [validateSnapshotBlocks, hvalid, hb]
    exact hrest

/-! ## Steps -/

variable {A : Source} {n n' : Node}

/-- A gossiped block that passes the checks of `accept_block` has a commitment that passes with the
default weights too. -/
def DefaultCommitments (E : Env) (_ : Node) (event : Event) : Prop :=
  ∀ block ∈ event.gossiped, validateReceivedBlock E block = .ok () →
    validateBlockCommitment E defaultServiceScoreWeights block = .ok ()

/-- The node's own commitments are scored with the default weights, if it makes any. -/
def OwnCommitmentsDefault (E : Env) : Prop :=
  E.config.featureFlags.enableReceipts = false ∨
    E.config.featureFlags.serviceScoreWeights = defaultServiceScoreWeights

def defaultSource (E : Env) : Source where
  blocks := {block | validateReceivedBlock E block = .ok () →
    validateBlockCommitment E defaultServiceScoreWeights block = .ok ()}

/-- Every block the node has or took up again is importable, and what it builds would be. -/
structure ImportInv (E : Env) (n : Node) : Prop where
  known : ∀ block ∈ n.knownBlocks, Importable E block
  taken : ∀ block ∈ n.takenOrphans, Importable E block
  built : ∀ block ∈ n.builtBlocks, validateReceivedBlock E block = .ok () →
    validateBlockCommitment E defaultServiceScoreWeights block = .ok ()

theorem ImportInv.new (h : ImportInv E n) {block : Block} (hb : (defaultSource E).New E n block) :
    Importable E block := by
  rcases hb with ⟨hsource, hvalid⟩ | ⟨-, _, _, _, _, _, -, -, hchain, -, hmem⟩
  · refine importable_of_validateReceivedBlock hvalid ?_
    rcases hsource.source with hoffered | hbuilt | htaken
    · exact hoffered hvalid
    · exact h.built block hbuilt hvalid
    · exact (h.taken block htaken).commitment
  · obtain ⟨l, parent, hvalid⟩ := validateSnapshotBlocks_mem hchain hmem
    exact (validateSnapshotBlock_ok.1 hvalid).1

/-- Without receipts a node builds blocks without commitment; otherwise its weights decide. -/
theorem buildProposal_commitment (hown : OwnCommitmentsDefault E) {slot : Slot} {epoch : Epoch}
    {timestamp : Nat} {block : Block} (h : buildProposal E n slot epoch timestamp = .ok block)
    (hvalid : validateReceivedBlock E block = .ok ()) :
    validateBlockCommitment E defaultServiceScoreWeights block = .ok () := by
  rcases hown with hoff | hweights
  · obtain ⟨_, -, h⟩ := except_bind_ok.1 h
    obtain rfl := Except.ok.inj h
    simp [validateBlockCommitment, hoff, rejectIf, bind, Except.bind]
  · simp only [validateReceivedBlock, except_bind_ok, hweights] at hvalid
    obtain ⟨_, -, _, -, _, -, _, -, _, -, _, hcommitment, -⟩ := hvalid
    exact hcommitment

theorem ImportInv.step (hown : OwnCommitmentsDefault E) (h : ImportInv E n)
    (hstep : Step E (defaultSource E) n n') : ImportInv E n' where
  known := hstep.forall_known (fun _ hb => h.new hb) h.known
  taken block hb := by
    rcases hstep.effect_new (Node.mem_takenOrphans.1 hb) (by simp) (by simp) with hold | hguard
    · exact h.taken block (Node.mem_takenOrphans.2 hold)
    · exact h.known block (Node.mem_knownBlocks.2 (.inr (.inr hguard)))
  built block hb := by
    rcases hstep.effect_new (Node.mem_builtBlocks.1 hb) (by simp) (by simp) with hold | hguard
    · exact h.built block (Node.mem_builtBlocks.2 hold)
    · obtain ⟨slot, epoch, timestamp, hbuild, -⟩ := hguard
      exact buildProposal_commitment hown hbuild

theorem Reachable.importInv (hown : OwnCommitmentsDefault E)
    (hn : Reachable E (DefaultCommitments E) n) : ImportInv E n := by
  refine hn.invariant (A := defaultSource E) (fun _ event hP => { blocks := hP }) (fun slot => ?_)
    fun _ _ _ h hstep => h.step hown hstep
  exact ⟨by simp [Node.knownBlocks, Node.fresh], by simp [Node.takenOrphans, Node.fresh],
    by simp [Node.builtBlocks, Node.fresh]⟩

end

/-! ## Exports -/

/-- A node of the same network: it hashes, verifies and scores in the same way, on one genesis. -/
structure Env.SameNetwork (E E' : Env) : Prop where
  hashing : E'.hashing = E.hashing
  verify : E'.crypto.verify = E.crypto.verify
  genesis : E'.genesis = E.genesis
  score : E'.score = E.score

namespace Env.SameNetwork

variable {E E' : Env} (h : E.SameNetwork E')
include h

theorem consensus_eq : E'.consensus = E.consensus := by
  rw [Env.consensus, h.hashing, h.genesis, h.score]
  rfl

theorem verifySignature_eq : verifySignature E' = verifySignature E := by
  funext
  rw [verifySignature, h.verify]
  rfl

theorem validateSnapshotReceipts_eq (receipts : List RelayReceipt) (exacts events : List HashBytes) :
    validateSnapshotReceipts E' receipts exacts events =
      validateSnapshotReceipts E receipts exacts events := by
  induction receipts generalizing exacts events with
  | nil => rfl
  | cons receipt receipts ih =>
    simp only [validateSnapshotReceipts, ih, h.hashing, h.verifySignature_eq, h.consensus_eq]

theorem validateCommitmentReceipts_eq (commitment : TopologyCommitment)
    (receipts : List RelayReceipt) (exacts events : List HashBytes) :
    validateCommitmentReceipts E' commitment receipts exacts events =
      validateCommitmentReceipts E commitment receipts exacts events := by
  induction receipts generalizing exacts events with
  | nil => rfl
  | cons receipt receipts ih =>
    simp only [validateCommitmentReceipts, ih, h.hashing, h.verifySignature_eq, h.consensus_eq]

theorem validateSnapshotBlock_eq (ledger : LedgerState) (block : Block) (parent : HashBytes) :
    validateSnapshotBlock E' ledger block parent = validateSnapshotBlock E ledger block parent := by
  simp only [validateSnapshotBlock, validateBlockCommitment, validateCommitmentBundle, h.hashing,
    h.verifySignature_eq, h.consensus_eq, h.validateCommitmentReceipts_eq]

theorem applyTransactions_eq (ledger : LedgerState) (transactions : List SignedTransaction) :
    ledger.applyTransactions E.hashing E'.crypto transactions =
      ledger.applyTransactions E.hashing E.crypto transactions := by
  induction transactions generalizing ledger with
  | nil => rfl
  | cons tx transactions ih =>
    simp only [applyTransactions, validateAndApply, validateTx, ih, h.verify]

theorem applyBlock_eq (ledger : LedgerState) (block : Block) :
    ledger.applyBlock E'.hashing E'.crypto block = ledger.applyBlock E.hashing E.crypto block := by
  simp only [applyBlock, h.applyTransactions_eq, h.hashing]

theorem validateSnapshotBlocks_eq (ledger : LedgerState) (start : HashBytes) (chain : List Block) :
    validateSnapshotBlocks E' ledger start chain = validateSnapshotBlocks E ledger start chain := by
  induction chain generalizing ledger start with
  | nil => rfl
  | cons block chain ih =>
    simp only [validateSnapshotBlocks, ih, h.validateSnapshotBlock_eq, h.applyBlock_eq]

/-- The check of a snapshot is the same on all nodes of a network. -/
theorem validateChainSnapshot_eq (chain : ChainSnapshot) :
    validateChainSnapshot E' chain = validateChainSnapshot E chain := by
  simp only [validateChainSnapshot, h.validateSnapshotReceipts_eq, h.validateSnapshotBlocks_eq,
    h.genesis]

end Env.SameNetwork

section
variable {E : Env} {S : Set Block} {n : Node}

/-- The runs in which the two validators agree on what is gossiped. -/
def AgreedFrom (E : Env) (S : Set Block) (n : Node) (event : Event) : Prop :=
  NumberedFrom E S n event ∧ DefaultCommitments E n event

/-- Every part of the chain from genesis on passes the check of a snapshot's blocks. -/
theorem NumberInv.validateSnapshotBlocks (hS : CollisionFree E.hashing S) (h : NumberInv E S n)
    (himport : ImportInv E n) (k : Nat) : ∃ ledger,
      validateSnapshotBlocks E (.fromGenesis E.genesis) empty_hash (n.blocks.take k) = .ok ledger ∧
      replayBlocks E.hashing E.crypto E.genesis (n.blocks.take k) = .ok ledger := by
  have hsplit := n.blocks.take_append_drop k
  have hlinked := h.linked
  have hreplay := h.replay
  rw [← hsplit] at hlinked hreplay
  obtain ⟨ledger, htake, -⟩ := applyBlocks_append_ok hreplay
  have hmem (b : Block) (hb : b ∈ n.blocks.take k) : b ∈ n.knownBlocks :=
    Node.mem_knownBlocks.2 (.inl (List.mem_of_mem_take hb))
  refine ⟨ledger, validateSnapshotBlocks_of_replay hS (.genesis hS) (.inl rfl)
    (HashChain.linkedFrom_append.1 hlinked).1 (fun b hb => ?_) (fun b hb => h.known b (hmem b hb))
    htake, htake⟩
  exact ⟨h.arrived b (hmem b hb), himport.known b (hmem b hb)⟩

/-- A node exports a part of its chain, with the snapshot that part replays to. -/
theorem buildChainSnapshot_ok (hreplay : replayBlocks E.hashing E.crypto E.genesis n.blocks = .ok n.ledger)
    {ledger : LedgerState}
    (htake : replayBlocks E.hashing E.crypto E.genesis (n.blocks.take n.syncExportPrefixLen) =
      .ok ledger) :
    n.buildChainSnapshot E = .ok
      { snapshot := ledger.snapshot
        blocks := n.blocks.take n.syncExportPrefixLen
        receipts := n.receipts
        proposalVotes := n.votesForBlocks (n.blocks.take n.syncExportPrefixLen) } := by
  have hexport : n.syncExportSnapshot E = .ok ledger.snapshot := by
    unfold Node.syncExportSnapshot
    dsimp only
    split_ifs with hlen
    · rw [hlen, List.take_length, hreplay] at htake
      rw [Except.ok.inj htake]
    · rw [htake]
      rfl
  rw [Node.buildChainSnapshot, hexport]
  rfl

end

/-- **What a node exports, its peers import.** In every run in which gossiped blocks are numbered one
above their parents and their commitments pass with the default weights, and the node makes its own
with these, `validate_chain_snapshot` accepts the exported chain on every node of the network, with
the exported snapshot; and the whole chain passes `validate_snapshot_block` position by position. -/
theorem export_is_importable (E E' : Env) (hpeer : E.SameNetwork E')
    (howncommitments : OwnCommitmentsDefault E) (S : Set Block) (hS : CollisionFree E.hashing S)
    (n : Node) (hn : Reachable E (AgreedFrom E S) n) (hown : ∀ block ∈ n.builtBlocks, block ∈ S) :
    (∃ chain ledger, n.buildChainSnapshot E = .ok chain ∧
      validateChainSnapshot E' chain = .ok ledger ∧ ledger.snapshot = chain.snapshot) ∧
    validateSnapshotBlocks E' (.fromGenesis E'.genesis) empty_hash n.blocks = .ok n.ledger := by
  have hnumber := (hn.mono fun _ _ h => h.1).numberInv hS hown
  have himport := (hn.mono fun _ _ h => h.2).importInv howncommitments
  have hreceipts := (hn.mono fun _ _ _ => trivial).receiptStore
  constructor
  · obtain ⟨ledger, hvalid, htake⟩ := hnumber.validateSnapshotBlocks hS himport n.syncExportPrefixLen
    refine ⟨_, ledger, buildChainSnapshot_ok hnumber.replay htake, ?_, rfl⟩
    rw [hpeer.validateChainSnapshot_eq]
    simp [validateChainSnapshot, hreceipts, hvalid, rejectIf, bind, Except.bind]
  · obtain ⟨ledger, hvalid, htake⟩ := hnumber.validateSnapshotBlocks hS himport n.blocks.length
    rw [List.take_length] at hvalid htake
    rw [hpeer.validateSnapshotBlocks_eq, hpeer.genesis, hvalid]
    exact htake.symm.trans hnumber.replay

/-! ## Runs -/

theorem sampleEnv_sameNetwork (v w : ValidatorId) : (sampleEnv v).SameNetwork (sampleEnv w) :=
  ⟨rfl, rfl, rfl, rfl⟩

/-- Node 1 took the two blocks of the sample network, and node 2 accepts its export of them. -/
theorem two_blocks_exported : ∃ n,
    runEvents (sampleEnv 1) 8 [.received 2 (.blockProposal secondBlock),
      .received 4 (.blockProposal firstBlock)] (.fresh (sampleEnv 1) (some 1)) = some n ∧
    n.blocks.length = 2 ∧ ∃ chain ledger, n.buildChainSnapshot (sampleEnv 1) = .ok chain ∧
      validateChainSnapshot (sampleEnv 2) chain = .ok ledger ∧ ledger.snapshot = chain.snapshot := by
  obtain ⟨n, hn, hlen⟩ := twoBlocks_run
  have hreachable : Reachable (sampleEnv 1)
      (AgreedFrom (sampleEnv 1) {b | b = firstBlock ∨ b = secondBlock}) n := by
    refine Reachable.runEvents (.fresh _) (fun event hevent n => ?_) hn
    have hblocks : ∀ b ∈ event.blocks, b = firstBlock ∨ b = secondBlock := by
      simp only [List.mem_cons, List.not_mem_nil, or_false] at hevent
      rcases hevent with rfl | rfl
      · exact fun b hb => .inr (by simpa [Event.blocks] using hb)
      · exact fun b hb => .inl (by simpa [Event.blocks] using hb)
    refine ⟨⟨hblocks, fun b hb _ => ?_⟩, fun b hb _ => ?_⟩
    · exact numbered_first_second (hblocks b (event.gossiped_subset hb))
    · rcases hblocks b (event.gossiped_subset hb) with rfl | rfl <;> rfl
  exact ⟨n, hn, hlen.1, (export_is_importable (sampleEnv 1) (sampleEnv 2) (sampleEnv_sameNetwork 1 2)
    (.inl rfl) {b | b = firstBlock ∨ b = secondBlock} collisionFree_first_second n hreachable
    (by simp [hlen.2])).1⟩

/-- Node 1 made a first block with number 7 canonical; its export is refused everywhere. -/
theorem misnumbered_export_is_refused : ∃ n, Reachable (sampleEnv 1)
      (BlocksFrom {emptyBlock 7 empty_hash 0}) n ∧
    CollisionFree (sampleEnv 1).hashing {emptyBlock 7 empty_hash 0} ∧ n.builtBlocks = [] ∧
    ∃ chain, n.buildChainSnapshot (sampleEnv 1) = .ok chain ∧
      validateChainSnapshot (sampleEnv 2) chain = .error .snapshotBlockNumber := by
  have hrun : (runEvents (sampleEnv 1) 8 [.received 4 (.blockProposal (emptyBlock 7 empty_hash 0))]
      (.fresh (sampleEnv 1) (some 1))).map (fun n => (n.builtBlocks.length,
        (n.buildChainSnapshot (sampleEnv 1)).toOption.map fun chain =>
          (validateChainSnapshot (sampleEnv 2) chain).map fun _ => ())) =
      some (0, some (.error .snapshotBlockNumber)) := by
    decide +kernel
  obtain ⟨n, hn, hvalues⟩ := Option.map_eq_some_iff.1 hrun
  simp only [Prod.mk.injEq, List.length_eq_zero_iff] at hvalues
  obtain ⟨chain, hchain, hrefused⟩ := Option.map_eq_some_iff.1 hvalues.2
  refine ⟨n, Reachable.runEvents (.fresh _) ?_ hn, ⟨?_, ?_⟩, hvalues.1, chain,
    toOption_eq_some.1 hchain, ?_⟩
  · rintro event hevent n block hblock
    obtain rfl := List.mem_singleton.1 hevent
    simpa [Event.blocks] using hblock
  · rintro b rfl c rfl -
    exact ⟨rfl, rfl, rfl⟩
  · rintro b rfl
    decide +kernel
  · cases hvalid : validateChainSnapshot (sampleEnv 2) chain with
    | ok ledger => simp [hvalid, Except.map] at hrefused
    | error e => simpa [hvalid, Except.map] using hrefused

end Entangrid
