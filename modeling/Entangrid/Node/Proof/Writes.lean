import Entangrid.Node.Proof.Alignment
import Entangrid.Node.Proof.Attestation
import Entangrid.Node.Proof.Proposal

/-!
# What a node says

`Write` lists what an operation can do to the fields that a node answers for: the messages it hands
out, the slots it proposes and beats in, the attestations it holds, whom it blames for a bad receipt,
and whether it holds votes at all. Each comes with the checks under which the code does it. Unlike
`Step` it does not follow the chain; a send is a step of its own kind for every message.

`Node.Proof.Conduct` shows that every handler is a chain of writes.
-/

namespace Entangrid

open Proc (Always Moves)

/-! ## Writes -/

/-- The fields a quiet write leaves alone. -/
structure Watched where
  serviceAttestations : BTreeMap (ValidatorId × Epoch) (BTreeMap ValidatorId ServiceAttestation)
  lastProposedSlot : Option Slot
  lastHeartbeatSlot : Option Slot
  clockReads : Nat
  invalidReceipts : Nat
  effects : List Effect

def Node.watched (n : Node) : Watched where
  serviceAttestations := n.serviceAttestations
  lastProposedSlot := n.lastProposedSlot
  lastHeartbeatSlot := n.lastHeartbeatSlot
  clockReads := n.clockReads
  invalidReceipts := n.invalidReceipts
  effects := n.effects

/-- No vote and no certificate: the state of a node of the first protocol. -/
def Node.NoVotes (n : Node) : Prop :=
  n.proposalVotes = ∅ ∧ n.bufferedProposalVotes = ∅ ∧ n.quorumCertificates = ∅

/-- Every block that waits for a certificate passed the checks of a received block. -/
def Node.PendingValid (E : Env) (n : Node) : Prop :=
  ∀ block ∈ n.pendingCertifiedChildren, validateReceivedBlock E block = .ok ()

/-- What the event at hand allows: the slot it may propose in, the receipts it may hand out on
request and those it brings, and the blocks it brings or finds at the node. -/
structure Occasion where
  live : Set Slot := ∅
  held : Set RelayReceipt := ∅
  arrived : Set RelayReceipt := ∅
  blocks : Set Block := ∅

/-- Where a block comes from: it is one of the occasion's, or the node built it. -/
def Occasion.Origin (O : Occasion) (n : Node) (block : Block) : Prop :=
  block ∈ O.blocks ∨ block ∈ n.builtBlocks

/-- The occasion with one more block. -/
def Occasion.bring (O : Occasion) (block : Block) : Occasion :=
  { O with blocks := insert block O.blocks }

/-- What a chain of writes keeps of the blocks. -/
structure Node.InOrder (E : Env) (O : Occasion) (n : Node) : Prop where
  pending : n.PendingValid E
  known : ∀ block ∈ n.knownBlocks, O.Origin n block

/-- The block lists of a node. -/
structure Shelves where
  blocks : List Block
  pendingCertifiedChildren : List Block
  orphanBlocks : List Block

def Node.shelves (n : Node) : Shelves where
  blocks := n.blocks
  pendingCertifiedChildren := n.pendingCertifiedChildren
  orphanBlocks := n.orphanBlocks

/-- The votes and certificates of a node. -/
structure Ballots where
  proposalVotes : VoteMap
  bufferedProposalVotes : VoteMap
  quorumCertificates : BTreeMap HashBytes QuorumCertificate

def Node.ballots (n : Node) : Ballots where
  proposalVotes := n.proposalVotes
  bufferedProposalVotes := n.bufferedProposalVotes
  quorumCertificates := n.quorumCertificates

/-- All that writes look at. -/
structure Scene where
  watched : Watched
  shelves : Shelves
  ballots : Ballots
  observedInvalidReceipts : BTreeMap (Epoch × ValidatorId) Nat

def Node.scene (n : Node) : Scene where
  watched := n.watched
  shelves := n.shelves
  ballots := n.ballots
  observedInvalidReceipts := n.observedInvalidReceipts

/-- A change that nobody answers for. -/
structure Unwatched (E : Env) (O : Occasion) (n n' : Node) : Prop where
  watched : n'.watched = n.watched
  known : ∀ block ∈ n'.knownBlocks, block ∈ n.knownBlocks ∨ O.Origin n block
  pending : n'.pendingCertifiedChildren ⊆ n.pendingCertifiedChildren
  blamed : n.observedInvalidReceipts = ∅ → n'.observedInvalidReceipts = ∅
  votes : E.v2 = true ∨ (n.NoVotes → n'.NoVotes)

/-- The effects that neither reach a peer nor build a block; votes are signed with `consensus_v2`. -/
def Effect.isNote (E : Env) : Effect → Bool
  | .broadcast _ | .sendTo .. | .blockBuilt _ => false
  | .voteSigned _ => E.v2
  | _ => true

/-- The blocks a message carries. -/
def ProtocolMessage.blocks : ProtocolMessage → List Block
  | .blockProposal block => [block]
  | .syncResponse _ chain => chain.blocks
  | .syncBlocks _ chain => chain.blocks
  | .certifiedSyncResponse (.certified response) => response.blocks
  | _ => []

def ChunkedSyncResponse.responder : ChunkedSyncResponse → ValidatorId
  | .certified response => response.responderId
  | .unavailable responderId => responderId

/-- A receipt the node signed itself, for a relation it was assigned to. -/
structure OwnReceipt (E : Env) (receipt : RelayReceipt) : Prop where
  witness : receipt.witnessValidatorId = E.me
  signed : E.crypto.sign E.me (receiptSigningHash E.hashing receipt) = .ok receipt.signature
  policy : validateHybridReceiptPolicy E receipt = .ok ()
  assigned : E.consensus.validateReceiptAssignment receipt = .ok ()

/-- The receipts that may be found bad: those that arrived, those of a checked segment and the own. -/
def Occasion.Suspects (O : Occasion) (E : Env) (receipt : RelayReceipt) : Prop :=
  receipt ∈ O.arrived ∨ ReceiptValid E receipt ∨ OwnReceipt E receipt

section
variable (E : Env) (O : Occasion)

/-- What holds of a message when it is handed out: it names the node as its author, and what it
carries of others was checked. -/
def Says (n : Node) : ProtocolMessage → Prop
  | .transactionBroadcast tx => ∃ ledger, checkTransaction E ledger tx = .ok ()
  | .blockProposal block => validateReceivedBlock E block = .ok ()
  | .proposalVote vote => (∃ block, buildLocalProposalVote E block = .ok vote) ∧
      validateProposalVoteSignatureAndSigner E vote = .ok () ∧
      validateHybridProposalVotePolicy E vote = .ok ()
  | .quorumCertificate qc => .qcBuilt qc ∈ n.effects
  | .syncStatus v .. | .syncRequest v .. | .syncResponse v _ | .syncBlocks v _ => v = E.me
  | .certifiedSyncRequest request => request.requesterId = E.me
  | .certifiedSyncResponse response => response.responder = E.me
  | .heartbeatPulse _ => False
  | .relayReceipt receipt => receiptVerdict E receipt = .ok ()
  | .serviceAttestation a =>
    a.committeeMemberId = E.me ∧ validateServiceAttestation E a = .ok ()
  | .serviceAggregate a => validateServiceAggregate E a = .ok ()
  | .receiptFetch v _ w => v = E.me ∧ w = E.me
  | .receiptResponse v _ _ receipts => v = E.me ∧ ∀ receipt ∈ receipts, receipt ∈ O.held

/-- It may be handed out: it is right, and its blocks are known. -/
structure MaySay (n : Node) (message : ProtocolMessage) : Prop where
  right : Says E O n message
  blocks : ∀ block ∈ message.blocks, O.Origin n block

inductive Write : Node → Node → Prop
  | quiet {n n' : Node} (h : Unwatched E O n n') : Write n n'
  | readClock {n : Node} : Write n { n with clockReads := n.clockReads + 1 }
  | note {n : Node} (effect : Effect) (h : effect.isNote E = true) : Write n (n.withEffect effect)
  | broadcast {n : Node} (message : ProtocolMessage) (h : MaySay E O n message) :
      Write n (n.withEffect (.broadcast message))
  | sendTo {n : Node} (peer : ValidatorId) (message : ProtocolMessage) (h : MaySay E O n message) :
      Write n (n.withEffect (.sendTo peer message))
  | pending {n : Node} (block : Block) (h : validateReceivedBlock E block = .ok ())
      (horigin : O.Origin n block) : Write n (n.addPendingChild block)
  | attest {n : Node} (a : ServiceAttestation) (hvalid : validateServiceAttestation E a = .ok ())
      (hreplaces : attestationReplaces E
        ((n.serviceAttestations.getD (a.subjectValidatorId, a.epoch) ∅)[a.committeeMemberId]?) a =
          true) :
      Write n (addServiceAttestation E a n)
  | blame {n : Node} (receipt : RelayReceipt) (hsuspect : O.Suspects E receipt)
      (hbad : receiptVerdict E receipt ≠ .ok ()) : Write n (countInvalidReceipt receipt n)
  /-- The slot counts as proposed, without a block. -/
  | passSlot {n : Node} (slot : Slot) (hlive : slot ∈ O.live) (hnew : n.lastProposedSlot ≠ some slot) :
      Write n { n with lastProposedSlot := some slot }
  | propose {n : Node} (slot : Slot) (block : Block) (hlive : slot ∈ O.live)
      (hnew : n.lastProposedSlot ≠ some slot) (hslot : block.header.slot = slot)
      (hproposer : E.consensus.proposerForSlot slot = E.me) :
      Write n ({ n with lastProposedSlot := some slot, clockReads := n.clockReads + 1 }.withEffect
        (.blockBuilt block))
  | beat {n : Node} (pulse : HeartbeatPulse) (hlive : pulse.slot ∈ O.live)
      (hnew : n.lastHeartbeatSlot ≠ some pulse.slot) (hsource : pulse.sourceValidatorId = E.me) :
      Write n ({ n with
        lastHeartbeatSlot := some pulse.slot
        clockReads := n.clockReads + 1 }.withEffect (.broadcast (.heartbeatPulse pulse)))

/-- A chain of writes leads on from a state whose blocks are in order. -/
def Writes (n n' : Node) : Prop := n.InOrder E O → Relation.ReflTransGen (Write E O) n n'

end

variable {E : Env} {O : Occasion} {α β : Type} {n n' : Node}

/-! ## Quiet writes -/

namespace Unwatched

theorem known_of_shelves (h : n'.shelves = n.shelves) : n'.knownBlocks = n.knownBlocks := by
  obtain ⟨hblocks, hpending, horphans⟩ := Shelves.mk.inj h
  rw [Node.knownBlocks, Node.knownBlocks, hblocks, hpending, horphans]

theorem noVotes_of_ballots (h : n'.ballots = n.ballots) (hn : n.NoVotes) : n'.NoVotes := by
  obtain ⟨hvotes, hbuffered, hcertificates⟩ := Ballots.mk.inj h
  exact ⟨hvotes.trans hn.1, hbuffered.trans hn.2.1, hcertificates.trans hn.2.2⟩

/-- Votes are written. -/
theorem of_votes (hwatched : n'.watched = n.watched) (hshelves : n'.shelves = n.shelves)
    (hblamed : n'.observedInvalidReceipts = n.observedInvalidReceipts)
    (hvotes : E.v2 = true ∨ (n.NoVotes → n'.NoVotes)) : Unwatched E O n n' where
  watched := hwatched
  known block hb := .inl (known_of_shelves hshelves ▸ hb)
  pending := by
    have hpending : n'.pendingCertifiedChildren = n.pendingCertifiedChildren :=
      congrArg Shelves.pendingCertifiedChildren hshelves
    rw [hpending]
    exact List.Subset.refl _
  blamed h := hblamed.trans h
  votes := hvotes

/-- Blocks are written. -/
theorem of_blocks (hwatched : n'.watched = n.watched) (hballots : n'.ballots = n.ballots)
    (hblamed : n'.observedInvalidReceipts = n.observedInvalidReceipts)
    (hpending : n'.pendingCertifiedChildren ⊆ n.pendingCertifiedChildren)
    (hknown : ∀ block ∈ n'.knownBlocks, block ∈ n.knownBlocks ∨ O.Origin n block) :
    Unwatched E O n n' where
  watched := hwatched
  known := hknown
  pending := hpending
  blamed h := hblamed.trans h
  votes := .inr (noVotes_of_ballots hballots)

theorem of_scene (h : n'.scene = n.scene) : Unwatched E O n n' :=
  .of_votes (congrArg Scene.watched h) (congrArg Scene.shelves h)
    (congrArg Scene.observedInvalidReceipts h) (.inr (noVotes_of_ballots (congrArg Scene.ballots h)))

end Unwatched

theorem Write.effects_suffix (h : Write E O n n') : n.effects <:+ n'.effects := by
  cases h with
  | quiet h =>
    have heffects : n'.effects = n.effects := congrArg Watched.effects h.watched
    rw [heffects]
  | readClock | pending | attest | blame | passSlot => exact List.suffix_refl _
  | note | broadcast | sendTo | propose | beat => exact List.suffix_cons _ _

theorem effects_suffix_of_chain (h : Relation.ReflTransGen (Write E O) n n') :
    n.effects <:+ n'.effects := by
  induction h with
  | refl => exact List.suffix_refl _
  | tail _ hlast ih => exact ih.trans hlast.effects_suffix

theorem Occasion.Origin.mono {block : Block} (h : O.Origin n block)
    (heffects : n.effects <:+ n'.effects) : O.Origin n' block :=
  h.imp_right fun hbuilt => (heffects.filterMap _).mem hbuilt

/-- A block that stays, or that comes from the occasion. -/
theorem Node.InOrder.next (h : n.InOrder E O) (heffects : n.effects <:+ n'.effects)
    (hpending : n'.PendingValid E)
    (hknown : ∀ block ∈ n'.knownBlocks, block ∈ n.knownBlocks ∨ O.Origin n block) :
    n'.InOrder E O where
  pending := hpending
  known block hb := ((hknown block hb).elim (h.known block) id).mono heffects

theorem Write.inOrder (h : Write E O n n') (hn : n.InOrder E O) : n'.InOrder E O := by
  have heffects := h.effects_suffix
  cases h with
  | quiet h => exact hn.next heffects (fun block hb => hn.pending block (h.pending hb)) h.known
  | pending block hvalid horigin =>
    refine hn.next heffects (fun b hb => ?_) fun b hb => ?_
    · rcases List.mem_append.1 hb with hb | hb
      · exact hn.pending b hb
      · obtain rfl := List.mem_singleton.1 hb
        exact hvalid
    · simp only [Node.mem_knownBlocks, Node.addPendingChild, List.mem_append, List.mem_singleton] at hb ⊢
      rcases hb with hb | (hb | rfl) | hb
      · exact .inl (.inl hb)
      · exact .inl (.inr (.inl hb))
      · exact .inr horigin
      · exact .inl (.inr (.inr hb))
  | _ => exact hn.next heffects hn.pending fun _ => .inl

theorem inOrder_of_chain (h : Relation.ReflTransGen (Write E O) n n') (hn : n.InOrder E O) :
    n'.InOrder E O := by
  induction h with
  | refl => exact hn
  | tail _ hlast ih => exact hlast.inOrder ih

instance (E : Env) (O : Occasion) : IsPreorder Node (Writes E O) where
  refl _ _ := .refl
  trans _ _ _ h h' hn := (h hn).trans (h' (inOrder_of_chain (h hn) hn))

/-! ## One more block -/

theorem Occasion.mem_bring (block : Block) : block ∈ (O.bring block).blocks := Set.mem_insert _ _

theorem Occasion.Origin.of_bring {block b : Block} (h : (O.bring block).Origin n b)
    (hblock : O.Origin n block) : O.Origin n b := by
  rcases h with (rfl | hb) | hbuilt
  · exact hblock
  · exact .inl hb
  · exact .inr hbuilt

theorem Write.of_bring {block : Block} (h : Write E (O.bring block) n n')
    (hblock : O.Origin n block) : Write E O n n' := by
  cases h with
  | quiet h =>
    exact .quiet { h with known := fun b hb => (h.known b hb).imp_right fun hb => hb.of_bring hblock }
  | readClock => exact .readClock
  | note effect h => exact .note effect h
  | broadcast message h =>
    exact .broadcast message ⟨h.right, fun b hb => (h.blocks b hb).of_bring hblock⟩
  | sendTo peer message h =>
    exact .sendTo peer message ⟨h.right, fun b hb => (h.blocks b hb).of_bring hblock⟩
  | pending b hvalid horigin => exact .pending b hvalid (horigin.of_bring hblock)
  | attest a hvalid hreplaces => exact .attest a hvalid hreplaces
  | blame receipt hsuspect hbad => exact .blame receipt hsuspect hbad
  | passSlot slot hlive hnew => exact .passSlot slot hlive hnew
  | propose slot b hlive hnew hslot hproposer => exact .propose slot b hlive hnew hslot hproposer
  | beat pulse hlive hnew hsource => exact .beat pulse hlive hnew hsource

/-- A block that is known of anyway can be taken for one of the occasion's. -/
theorem Writes.of_bring {block : Block} (hblock : O.Origin n block)
    (h : Writes E (O.bring block) n n') : Writes E O n n' := by
  intro hn
  have hchain := h ⟨hn.pending, fun b hb => (hn.known b hb).imp_left .inr⟩
  clear h
  induction hchain with
  | refl => exact .refl
  | tail _ hlast ih =>
    exact ih.tail (hlast.of_bring (hblock.mono (effects_suffix_of_chain ih)))

/-! ## Rules -/

namespace Writes

theorem single (h : Write E O n n') : Writes E O n n' := fun _ => .single h

theorem assume {m : NodeM α} (h : n.InOrder E O → Moves (Writes E O) m n) :
    Moves (Writes E O) m n := by
  unfold Moves at h ⊢
  cases hm : m.run n with
  | ok a n' =>
    intro hn
    have := h hn
    rw [hm] at this
    exact this hn
  | err e n' =>
    intro hn
    have := h hn
    rw [hm] at this
    exact this hn
  | _ => trivial

theorem modify {f : Node → Node} (h : ∀ n, Write E O n (f n)) :
    Always (Writes E O) (Proc.modify f : NodeM Unit) := .modify fun n => single (h n)

theorem quiet {f : Node → Node} (h : ∀ n, Unwatched E O n (f n)) :
    Always (Writes E O) (Proc.modify f : NodeM Unit) := modify fun n => .quiet (h n)

/-- A change of the other fields. -/
theorem aside {f : Node → Node} (h : ∀ n, (f n).scene = n.scene) :
    Always (Writes E O) (Proc.modify f : NodeM Unit) := quiet fun n => .of_scene (h n)

theorem aside_moves {f : Node → Node} (h : (f n).scene = n.scene) :
    Moves (Writes E O) (Proc.modify f : NodeM Unit) n := Moves.modify (single (.quiet (.of_scene h)))

theorem note {effect : Effect} (h : effect.isNote E = true) :
    Always (Writes E O) (NodeM.emit effect) := modify fun _ => .note effect h

theorem store (w : StorageWrite) : Always (Writes E O) (NodeM.store w) := note rfl

theorem now : Always (Writes E O) (NodeM.now E) :=
  .read fun _ => .bind (modify fun _ => .readClock) fun _ => .pure _

theorem maySay {message : ProtocolMessage} (h : Says E O n message) (hblocks : message.blocks = []) :
    MaySay E O n message := ⟨h, by simp [hblocks]⟩

theorem broadcast {message : ProtocolMessage} (h : ∀ n, Says E O n message)
    (hblocks : message.blocks = []) : Always (Writes E O) (NodeM.broadcast message) :=
  modify fun n => .broadcast message (maySay (h n) hblocks)

theorem sendTo_moves {peer : ValidatorId} {message : ProtocolMessage}
    (h : n.InOrder E O → MaySay E O n message) :
    Moves (Writes E O) (NodeM.sendTo E peer message) n := by
  refine assume fun hn => ?_
  unfold NodeM.sendTo
  split_ifs
  · exact Moves.modify (single (.sendTo peer message (h hn)))
  · exact Moves.throw _

theorem sendTo (peer : ValidatorId) {message : ProtocolMessage} (h : ∀ n, Says E O n message)
    (hblocks : message.blocks = []) : Always (Writes E O) (NodeM.sendTo E peer message) :=
  fun n => sendTo_moves fun _ => maySay (h n) hblocks

/-- A block of the occasion is dealt with; it may be any block that is known of. -/
theorem with_block {m : NodeM α} {block : Block} (h : Moves (Writes E (O.bring block)) m n)
    (hblock : O.Origin n block) : Moves (Writes E O) m n :=
  h.mono fun _ => of_bring hblock

theorem logged {m : NodeM Unit} (h : Always (Writes E O) m) :
    Always (Writes E O) (Entangrid.logged m) := h.attempt.thenPure

end Writes

/-! ## Sync -/

section Sync
variable (v : ValidatorId)

theorem broadcastSyncStatus_writes : Always (Writes E O) (broadcastSyncStatus E) :=
  .read fun _ => Writes.broadcast (fun _ => rfl) rfl

theorem requestLegacySyncFrom_writes : Always (Writes E O) (requestLegacySyncFrom E v) :=
  .read fun _ => Writes.sendTo _ (fun _ => rfl) rfl

theorem requestFollowupLegacySyncFrom_writes :
    Always (Writes E O) (requestFollowupLegacySyncFrom E v) :=
  .read fun _ => Writes.sendTo _ (fun _ => rfl) rfl

theorem requestSyncFrom_writes : Always (Writes E O) (requestSyncFrom E v) :=
  .read fun _ => .ite (.read fun _ => Writes.sendTo _ (fun _ => rfl) rfl) (requestLegacySyncFrom_writes v)

theorem requestBestExcluding_writes (excluded : Option ValidatorId) :
    Always (Writes E O) (requestBestAvailableSyncFromAheadPeersExcluding E excluded) :=
  .read fun _ => by
    split
    · exact .pure _
    · exact (requestSyncFrom_writes _).thenPure

/-- An export is a part of the chain. -/
theorem blocks_of_buildChainSnapshot {chain : ChainSnapshot} (h : n.buildChainSnapshot E = .ok chain) :
    chain.blocks ⊆ n.blocks := by
  obtain ⟨snapshot, -, h⟩ := except_bind_ok.1 h
  obtain rfl := Except.ok.inj h
  exact List.take_subset _ _

theorem blocks_of_buildChainSegmentFromChain {snapshot : StateSnapshot} {window height limit : Nat}
    {tip : HashBytes} {len : Nat} {chain : ChainSegment}
    (h : buildChainSegmentFromChain snapshot (n.blocks.take len) n.receipts window height tip limit =
      some chain) : chain.blocks ⊆ n.blocks := by
  obtain ⟨-, -, -, hblocks⟩ := built_segment h
  rw [hblocks]
  exact List.Subset.trans (List.drop_subset _ _) (List.take_subset _ _)

theorem blocks_of_buildChainSegment {height : Nat} {tip : HashBytes} {chain : ChainSegment}
    (h : n.buildChainSegment E height tip = .ok (some chain)) : chain.blocks ⊆ n.blocks := by
  obtain ⟨snapshot, -, h⟩ := except_bind_ok.1 h
  obtain ⟨segment, hsegment, rfl⟩ := Option.map_eq_some_iff.1 (Except.ok.inj h)
  have hblocks := blocks_of_buildChainSegmentFromChain hsegment
  exact hblocks

theorem blocks_of_certifiedPrefix (blocks : List Block) :
    (n.certifiedPrefix blocks).map (·.1) ⊆ blocks := by
  induction blocks with
  | nil => exact List.nil_subset _
  | cons block rest ih =>
    rw [Node.certifiedPrefix]
    split
    · exact List.cons_subset_cons block ih
    · exact List.nil_subset _

/-- A certified answer is the node's own, and its blocks are on the chain. -/
theorem buildCertifiedSyncResponseForPeer_own (n : Node) (anchors : List SyncQcAnchor) :
    (n.buildCertifiedSyncResponseForPeer E anchors).responder = E.me ∧
      (ProtocolMessage.certifiedSyncResponse (n.buildCertifiedSyncResponseForPeer E anchors)).blocks ⊆
        n.blocks := by
  unfold Node.buildCertifiedSyncResponseForPeer
  dsimp only
  split
  · next response h =>
    obtain ⟨anchor, -, h⟩ := Option.bind_eq_some_iff.1 h
    obtain ⟨_, -, h⟩ := Option.bind_eq_some_iff.1 h
    split_ifs at h
    obtain ⟨⟨blocks, qcs, aggregates⟩, hsuffix, h⟩ := Option.bind_eq_some_iff.1 h
    split_ifs at h
    cases h
    refine ⟨rfl, ?_⟩
    obtain ⟨index, -, hsuffix⟩ := Option.bind_eq_some_iff.1 hsuffix
    dsimp only at hsuffix
    split_ifs at hsuffix
    cases hsuffix
    exact List.Subset.trans (blocks_of_certifiedPrefix _) (List.drop_subset _ _)
  · exact ⟨rfl, List.nil_subset _⟩

/-- What is on the chain may be handed out. -/
theorem Node.InOrder.maySay {message : ProtocolMessage} (hn : n.InOrder E O)
    (h : Says E O n message) (hblocks : message.blocks ⊆ n.blocks) : MaySay E O n message :=
  ⟨h, fun block hb => hn.known block (Node.mem_knownBlocks.2 (.inl (hblocks hb)))⟩

theorem sendFullSnapshotTo_writes : Always (Writes E O) (sendFullSnapshotTo E v) := fun _ =>
  Moves.read <| Moves.ofExcept_bind fun _ hchain =>
    Writes.sendTo_moves fun hn => hn.maySay rfl (blocks_of_buildChainSnapshot hchain)

theorem sendBestSyncTo_writes (height : Nat) (tip : HashBytes) :
    Always (Writes E O) (sendBestSyncTo E v height tip) := fun n => Moves.read <| by
  split_ifs
  · exact Moves.throw _
  refine Moves.ofExcept_bind fun segment hsegment => ?_
  cases segment with
  | some chain =>
    exact Writes.sendTo_moves fun hn => hn.maySay rfl (blocks_of_buildChainSegment hsegment)
  | none => exact sendFullSnapshotTo_writes v n

theorem sendBestCertifiedSyncTo_writes (v : ValidatorId) :
    Always (Writes E O) (sendBestCertifiedSyncTo E v) := fun n => Moves.read <| by
  split
  · exact Moves.pure _
  · next anchor _ =>
    have hown := buildCertifiedSyncResponseForPeer_own (E := E) n [anchor]
    split
    · exact Moves.pure _
    · next response hresponse =>
      rw [hresponse] at hown
      have hmay (hn : n.InOrder E O) :
          MaySay E O n (.certifiedSyncResponse (.certified response)) := hn.maySay hown.1 hown.2
      exact (Writes.sendTo_moves hmay).bind fun _ s _ => Moves.pure _

theorem sendAnchoredSuffixSyncTo_writes (anchor : SyncQcAnchor) :
    Always (Writes E O) (sendAnchoredSuffixSyncTo E v anchor) := fun n => Moves.read <| by
  split_ifs
  · exact Moves.pure _
  refine Moves.ofExcept_bind fun snapshot _ => ?_
  split
  · exact Moves.pure _
  · next chain hchain =>
    exact Writes.sendTo_moves fun hn => hn.maySay rfl (blocks_of_buildChainSegmentFromChain hchain)

theorem pushBestSyncTo_writes (height : Nat) (tip : HashBytes) :
    Always (Writes E O) (pushBestSyncTo E v height tip) := by
  refine .read fun n => .ite (.pure _) (.ite
    (.bind (sendBestCertifiedSyncTo_writes v) fun _ => .bind (.pure _) fun anchoredAt => ?_)
    (.bind (.pure _) fun anchoredAt => ?_))
  all_goals
    cases anchoredAt with
    | some anchor =>
      exact .bind (sendAnchoredSuffixSyncTo_writes v anchor) fun _ => Writes.aside fun _ => rfl
    | none => exact .bind (sendBestSyncTo_writes v height tip) fun _ => Writes.aside fun _ => rfl

theorem pushSyncToStalePeers_writes : Always (Writes E O) (pushSyncToStalePeers E) :=
  .read fun _ => .forEach fun _ => .read fun _ => by
    split
    · exact .whenM (pushBestSyncTo_writes _ _ _)
    · exact .whenM (sendFullSnapshotTo_writes _)

theorem maybePushTipProgress_writes : Always (Writes E O) (maybePushTipProgressToStalePeers E) :=
  .read fun _ => .whenM (broadcastSyncStatus_writes.bind fun _ => pushSyncToStalePeers_writes)

theorem announceCertifiedProgress_writes : Always (Writes E O) (announceCertifiedProgress E) :=
  broadcastSyncStatus_writes.bind fun _ => pushSyncToStalePeers_writes.bind fun _ =>
    (requestBestExcluding_writes none).thenPure

theorem runSyncMaintenance_writes : Always (Writes E O) (runSyncMaintenance E) := by
  have hrest (n : Node) (requested : Bool) : Always (Writes E O) (if requested = true then
      Pure.pure ()
      else NodeM.broadcast (.syncRequest E.me n.localSyncView.height n.localSyncView.tipHash)) :=
    .unlessM (Writes.broadcast (fun _ => rfl) rfl)
  have hrequest : Always (Writes E O) (broadcastSyncRequest E) :=
    .read fun n => .ite (.bind (requestBestExcluding_writes none) (hrest n))
      (.bind (.pure _) (hrest n))
  exact hrequest.bind fun _ => broadcastSyncStatus_writes.bind fun _ =>
    pushSyncToStalePeers_writes.bind fun _ => .read fun _ =>
      .whenM (requestBestExcluding_writes none).thenPure

theorem syncRequestIsThrottled_writes (height : Nat) (tip : HashBytes) :
    Always (Writes E O) (syncRequestIsThrottled E v height tip) :=
  .read fun _ => by
    split
    · exact .pure _
    · exact Writes.now.thenPure

theorem recordSyncRequestServed_writes (height : Nat) (tip : HashBytes) :
    Always (Writes E O) (recordSyncRequestServed E v height tip) :=
  Writes.now.bind fun _ => Writes.aside fun _ => rfl

theorem maybeRepairStalePendingChild_writes (slot : Slot) :
    Always (Writes E O) (maybeRepairStalePendingCertifiedChild E slot) :=
  .read fun _ => by
    split
    · exact .pure _
    · exact .ite (.pure _) <| .ite
        (.bind (requestLegacySyncFrom_writes _) fun _ => (requestBestExcluding_writes _).thenPure)
        (requestBestExcluding_writes _).thenPure

theorem maybeBroadcastRecoverySyncStatus_writes (slot : Slot) :
    Always (Writes E O) (maybeBroadcastRecoverySyncStatus E slot) :=
  .read fun _ => .ite (.pure _) <| broadcastSyncStatus_writes.bind fun _ =>
    .bind (Writes.aside fun _ => rfl) fun _ => .pure _

theorem maybeRequestRecoverySync_writes (slot : Slot) :
    Always (Writes E O) (maybeRequestRecoverySyncFromAheadPeer E slot) :=
  .read fun _ => by
    split
    · exact .bind (Writes.aside fun _ => rfl) fun _ => .pure _
    · exact .ite (.pure _) <| (requestSyncFrom_writes _).bind fun _ =>
        .bind (Writes.aside fun _ => rfl) fun _ => .pure _

theorem handleCertifiedSyncRequest_writes (request : ChunkedSyncRequest) :
    Always (Writes E O) (handleCertifiedSyncRequest E request) := fun n => Moves.read <| by
  have hown : (n.buildCertifiedSyncResponse E request).responder = E.me ∧
      (ProtocolMessage.certifiedSyncResponse (n.buildCertifiedSyncResponse E request)).blocks ⊆
        n.blocks := by
    unfold Node.buildCertifiedSyncResponse
    split_ifs
    · exact ⟨rfl, List.nil_subset _⟩
    · exact buildCertifiedSyncResponseForPeer_own n _
  have hmay (hn : n.InOrder E O) :
      MaySay E O n (.certifiedSyncResponse (n.buildCertifiedSyncResponse E request)) :=
    hn.maySay hown.1 hown.2
  refine (Writes.sendTo_moves hmay).bind fun _ s _ => ?_
  split
  · exact sendAnchoredSuffixSyncTo_writes _ _ s
  · exact Moves.pure _

theorem followUpIgnored_writes (reason : CertifiedSyncIgnoreReason) :
    Always (Writes E O) (followUpIgnored E v reason) := .read fun _ => by
  cases reason with
  | unavailable =>
    exact .ite (requestFollowupLegacySyncFrom_writes v) <|
      (requestBestExcluding_writes _).bind fun _ => .unlessM (requestFollowupLegacySyncFrom_writes v)
  | sharedQcMismatch => exact requestFollowupLegacySyncFrom_writes v
  | staleSnapshot => exact .whenM (requestFollowupLegacySyncFrom_writes v)
  | emptyPayload => exact .pure _

end Sync

/-! ## Receipts -/

/-- A receipt is counted as invalid if it may be suspected. -/
theorem storeReceipt_writes {receipt : RelayReceipt}
    (h : receiptVerdict E receipt ≠ .ok () → O.Suspects E receipt) :
    Always (Writes E O) (storeReceipt E receipt) := by
  have hvalidate : Always (Writes E O) (validateReceipt E receipt) := .read fun _ => .ite (.pure _) <| by
    split
    · exact .pure _
    · next hverdict =>
      have hbad : receiptVerdict E receipt ≠ .ok () := by rw [hverdict]; nofun
      exact .ite (.bind (Writes.modify fun _ => .blame receipt (h hbad) hbad) fun _ => .throw _)
        (.throw _)
  refine .bind hvalidate.attempt fun
    | .error _ => .pure _
    | .ok _ => .read fun _ => .ite (.pure _) <| .ite (.pure _) <|
      .bind (Writes.aside fun _ => rfl) fun _ => .bind (Writes.store _) fun _ => .pure _

theorem importCommitmentReceipts_writes (receipts : List RelayReceipt) :
    Always (Writes E O) (importCommitmentReceipts E receipts) :=
  .forEach fun _ => .bind (.read fun _ => .ite (.pure _) <| .ite (.pure _) <|
    .bind (Writes.aside fun _ => rfl) fun _ => .bind (Writes.store _) fun _ => .pure _) fun _ => .pure _

/-- A receipt that is reported as new was checked. -/
theorem storeReceipt_true {receipt : RelayReceipt}
    (h : (storeReceipt E receipt).run n = .ok true n') : receiptVerdict E receipt = .ok () := by
  unfold storeReceipt at h
  obtain ⟨result, s, hvalidate, h⟩ := Proc.run_bind_eq_ok h
  cases result with
  | error e => cases h
  | ok u =>
    have hrun := Proc.run_of_attempt_ok hvalidate
    unfold validateReceipt at hrun
    rw [Proc.run_get_bind] at hrun
    split_ifs at hrun with hseen
    · cases hrun
      unfold persistReceipt at h
      rw [Proc.run_get_bind, if_pos hseen] at h
      cases h
    · split at hrun
      · next hok => exact hok
      · dsimp only at hrun
        split_ifs at hrun <;> cases hrun

theorem maybeIssueReceipt_writes (source destination : ValidatorId) (messageClass : MessageClass)
    (slot : Slot) (transcriptDigest byteHash : HashBytes) (sequenceNumber : Nat) :
    Always (Writes E O) (maybeIssueReceipt E source destination messageClass slot transcriptDigest
      byteHash sequenceNumber) := by
  unfold maybeIssueReceipt
  dsimp only
  split_ifs with hskip
  · exact .pure _
  simp only [Bool.or_eq_true, Bool.not_eq_true', not_or, Bool.not_eq_false] at hskip
  refine fun n => Moves.ofExcept_bind fun signature hsign => ?_
  refine Always.bind (Writes.note rfl) (fun _ s => Moves.ofExcept_bind fun _ hpolicy => ?_) n
  refine Moves.bind (storeReceipt_writes (fun _ => .inr (.inr ⟨rfl, ofCrypto_ok.1 hsign, hpolicy, ?_⟩)) s)
    fun isNew s' hrun => ?_
  · simp [ConsensusEngine.validateReceiptAssignment, hskip, rejectIf, bind, Except.bind]
  · cases isNew with
    | false => exact Moves.pure _
    | true =>
      have hmay := storeReceipt_true hrun
      exact Moves.modify (Writes.single (.broadcast _ (Writes.maySay hmay rfl)))

theorem processedSlot_writes : Always (Writes E O) (processedSlot E) :=
  .read fun _ => by
    split
    · exact .pure _
    · exact Writes.now.thenPure

theorem requestReceiptReconciliation_writes (epoch : Epoch) :
    Always (Writes E O) (requestReceiptReconciliation E epoch) :=
  .unlessM (.forEach fun _ => Writes.sendTo _ (fun _ => ⟨rfl, rfl⟩) rfl)

theorem handleTransaction_writes (tx : SignedTransaction) (v : ValidatorId) (localIngress : Bool) :
    Always (Writes E O) (handleTransaction E tx v localIngress) := by
  refine .read fun n => .ite (.pure _) fun s => Moves.ofExcept_bind fun _ hvalid => ?_
  have hmay : ∀ m, Says E O m (.transactionBroadcast tx) := fun _ => ⟨_, hvalid⟩
  refine Moves.bind (Writes.aside_moves rfl) fun _ s' _ => ?_
  exact Always.bind (Writes.note rfl) (fun _ => processedSlot_writes.bind fun _ =>
    Always.bind (maybeIssueReceipt_writes _ _ _ _ _ _ _) fun _ =>
      .whenM (Writes.broadcast hmay rfl)) s'

/-! ## Service evidence -/

theorem filter_eq_empty {κ ν : Type} [Ord κ] [Std.TransOrd κ] {f : κ → ν → Bool} {t : BTreeMap κ ν}
    (h : t = ∅) : t.filter f = ∅ := by
  subst h
  simp [Std.ExtTreeMap.filter_eq_empty_iff]

theorem refreshServiceScores_writes : Always (Writes E O) (refreshServiceScores E) :=
  Writes.quiet fun n => by
    unfold refreshedScores
    dsimp only
    split_ifs
    · exact .of_scene rfl
    · exact .of_scene rfl
    · exact
        { watched := rfl
          known := fun _ => .inl
          pending := fun _ => id
          blamed := fun h => filter_eq_empty h
          votes := .inr id }

theorem insertServiceAttestation_writes {a : ServiceAttestation}
    (hvalid : validateServiceAttestation E a = .ok ()) (persist : Bool) :
    Always (Writes E O) (insertServiceAttestation E a persist) := fun n => Moves.read <| by
  dsimp only
  by_cases hseen : n.seenServiceAttestations.contains (serviceAttestationSigningHash E.hashing a)
  · rw [if_pos hseen]
    exact Moves.pure _
  rw [if_neg hseen]
  split_ifs with hreplaces
  · refine Moves.bind (Moves.modify (Writes.single (.attest a hvalid hreplaces))) fun _ s _ => ?_
    exact (Writes.store _).thenPure s
  · exact Moves.bind (Moves.modify (Writes.single (.attest a hvalid hreplaces))) fun _ s _ =>
      Moves.pure _
  · exact Moves.pure _

theorem importServiceAttestation_writes (a : ServiceAttestation) :
    Always (Writes E O) (importServiceAttestation E a) :=
  .ite (.throw _) fun _ => Moves.ofExcept_bind fun _ hvalid =>
    insertServiceAttestation_writes hvalid true _

theorem insertServiceAttestations_writes (persist : Bool) {as : List ServiceAttestation}
    (hvalid : ∀ a ∈ as, validateServiceAttestation E a = .ok ()) :
    Always (Writes E O) (insertServiceAttestations E persist as) := by
  induction as with
  | nil => exact .pure _
  | cons a rest ih =>
    refine (insertServiceAttestation_writes (hvalid a (by simp)) persist).bind fun _ => ?_
    exact (ih fun a' ha' => hvalid a' (by simp [ha'])).thenPure

theorem insertServiceAggregate_writes (a : ServiceAggregate) (persist : Bool) :
    Always (Writes E O) (insertServiceAggregate E a persist) :=
  .read fun _ => .ite (.pure _) <| .bind (Writes.aside fun _ => rfl) fun _ =>
    .ite (.bind (Writes.store _) fun _ => .pure _) (.pure _)

theorem importServiceAggregate_writes (a : ServiceAggregate) :
    Always (Writes E O) (importServiceAggregate E a) := by
  refine .ite (.throw _) fun n => Moves.ofExcept_bind fun _ hvalid => ?_
  obtain ⟨-, -, hvalid⟩ := except_bind_ok.1 hvalid
  refine Always.bind (insertServiceAttestations_writes true (forM_ok.1 hvalid)) (fun _ => ?_) n
  refine .read fun _ => ?_
  split
  · exact .pure _
  · exact (insertServiceAggregate_writes _ true).thenPure

/-- An import that reports something new has checked it. -/
theorem importServiceAttestation_ok {a : ServiceAttestation} {isNew : Bool}
    (h : (importServiceAttestation E a).run n = .ok isNew n') :
    validateServiceAttestation E a = .ok () := by
  unfold importServiceAttestation at h
  split_ifs at h
  · cases h
  · obtain ⟨_, hvalid, -⟩ := Proc.ofExcept_bind_eq_ok h
    exact hvalid

theorem importServiceAggregate_ok {a : ServiceAggregate} {isNew : Bool}
    (h : (importServiceAggregate E a).run n = .ok isNew n') :
    validateServiceAggregate E a = .ok () := by
  unfold importServiceAggregate at h
  split_ifs at h
  · cases h
  · obtain ⟨_, hvalid, -⟩ := Proc.ofExcept_bind_eq_ok h
    exact hvalid

theorem maybePublishServiceAggregate_writes (subject : ValidatorId) (epoch : Epoch) :
    Always (Writes E O) (maybePublishServiceAggregate E subject epoch) :=
  .read fun _ => .ite (.pure _) <| by
    split
    · exact .pure _
    · next a _ =>
      refine fun s => Moves.bind (importServiceAggregate_writes a s) fun isNew s' hrun => ?_
      have hvalid := importServiceAggregate_ok hrun
      have hmay : ∀ m, Says E O m (.serviceAggregate a) := fun _ => hvalid
      have hbroadcast := Writes.broadcast hmay rfl
      split_ifs
      · exact (refreshServiceScores_writes s').bind fun _ s'' _ => hbroadcast.thenPure s''
      · exact Moves.pure _

theorem emitServiceAttestationFor_writes (epoch : Epoch) (subject : ValidatorId) :
    Always (Writes E O) (emitServiceAttestationFor E epoch subject) := by
  have hpublish : Always (Writes E O) (maybePublishServiceAggregate E subject epoch >>= fun _ =>
      Pure.pure ()) := (maybePublishServiceAggregate_writes subject epoch).thenPure
  refine .read fun n => .unlessM fun s => Moves.ofExcept_bind fun a ha =>
    Moves.bind (importServiceAttestation_writes a s) fun isNew s' hrun => ?_
  obtain ⟨hmember, -⟩ := buildLocalServiceAttestation_ok ha
  have hvalid := importServiceAttestation_ok hrun
  have hmay : ∀ m, Says E O m (.serviceAttestation a) := fun _ => ⟨hmember, hvalid⟩
  have hsend (peer : ValidatorId) := Writes.sendTo peer hmay rfl
  split_ifs
  · exact Moves.bind (Moves.forEach fun _ _ s'' _ => hsend _ s'') fun _ s'' _ => hpublish s''
  · exact hpublish s'

theorem refreshRecentAttestations_writes (epoch : Epoch) :
    Always (Writes E O) (refreshRecentServiceAttestations E epoch) :=
  .unlessM <| .forEach fun e => .unlessM <| .forEach (emitServiceAttestationFor_writes e)

theorem handleServiceAttestation_writes (a : ServiceAttestation) :
    Always (Writes E O) (handleServiceAttestation E a) :=
  (importServiceAttestation_writes a).attempt.bind fun
    | .error _ => .pure _
    | .ok _ => (maybePublishServiceAggregate_writes _ _).thenPure

theorem handleServiceAggregate_writes (a : ServiceAggregate) :
    Always (Writes E O) (handleServiceAggregate E a) :=
  (importServiceAggregate_writes a).attempt.bind fun
    | .error _ => .pure _
    | .ok _ => refreshServiceScores_writes

/-! ## Sessions and rate limits -/

theorem handleSessionObserved_writes (peer : ValidatorId) :
    Always (Writes E O) (handleSessionObserved E peer) := by
  refine .bind (Writes.aside fun _ => rfl) fun _ => processedSlot_writes.thenPure.bind fun _ =>
    Writes.aside fun n => ?_
  unfold recordSuccessfulSession
  split_ifs <;> rfl

theorem allowPeerMessage_writes (v : ValidatorId) (payload : ProtocolMessage) :
    Always (Writes E O) (allowPeerMessage E v payload) := by
  unfold allowPeerMessage
  split
  · exact .pure _
  · exact Writes.now.bind fun _ => .read fun _ => .bind (Writes.aside fun _ => rfl) fun _ => .pure _

end Entangrid
