import Entangrid.Node.Handle

/-!
# Runs of a node

A run starts from a node on empty storage and handles one event after the other. `Reachable E P`
are the states of the runs in which every event satisfies `P` at the state it meets; a handler that
fails ends the process, but its last state counts.
-/

namespace Entangrid

namespace Event

/-- The blocks a message carries. -/
def blocks : Event → List Block
  | .received _ (.blockProposal block) => [block]
  | .received _ (.syncResponse _ chain) => chain.blocks
  | .received _ (.syncBlocks _ chain) => chain.blocks
  | .received _ (.certifiedSyncResponse (.certified response)) => response.blocks
  | _ => []

/-- The block a peer gossips. -/
def gossiped : Event → List Block
  | .received _ (.blockProposal block) => [block]
  | _ => []

/-- The blocks of a sync message. -/
def carried : Event → List Block
  | .received _ (.syncResponse _ chain) => chain.blocks
  | .received _ (.syncBlocks _ chain) => chain.blocks
  | .received _ (.certifiedSyncResponse (.certified response)) => response.blocks
  | _ => []

theorem gossiped_subset (event : Event) : event.gossiped ⊆ event.blocks := by
  cases event with
  | received sender payload => cases payload <;> simp [gossiped, blocks]
  | _ => simp [gossiped]

theorem carried_subset (event : Event) : event.carried ⊆ event.blocks := by
  unfold carried
  split <;> simp [blocks]

/-- The validators under whose names a handler keeps what a message says of its sender: the
authenticated sender, or the one the message names. -/
def speakers : Event → List ValidatorId
  | .received _ (.syncStatus validatorId ..) => [validatorId]
  | .received _ (.syncRequest requesterId ..) => [requesterId]
  | .received _ (.syncResponse responderId _) => [responderId]
  | .received _ (.syncBlocks responderId _) => [responderId]
  | .received _ (.certifiedSyncResponse (.certified response)) => [response.responderId]
  | .received sender _ => [sender]
  | _ => []

/-- The votes a message carries, alone or in certificates. -/
def votes : Event → List ProposalVote
  | .received _ (.proposalVote vote) => [vote]
  | .received _ (.quorumCertificate qc) => qc.votes
  | .received _ (.syncResponse _ chain) => chain.proposalVotes
  | .received _ (.syncBlocks _ chain) => chain.proposalVotes
  | .received _ (.certifiedSyncResponse (.certified response)) => response.qcs.flatMap (·.votes)
  | _ => []

end Event

/-- The states of the runs whose events satisfy `P`. -/
inductive Reachable (E : Env) (P : Node → Event → Prop) : Node → Prop
  | fresh (lastProcessedSlot : Option Slot) : Reachable E P (Node.fresh E lastProcessedSlot)
  | handle {n n' : Node} (fuel : Nat) (event : Event) (hn : Reachable E P n) (hP : P n event)
      (hrun : ((handleEvent E fuel event).run n).state? = some n') : Reachable E P n'

/-- An event a node handled, with the states around it. -/
structure Handled where
  before : Node
  event : Event
  after : Node

/-- The effects of handling the event. -/
def Handled.Does (h : Handled) (effect : Effect) : Prop :=
  ∃ new, h.after.effects = new ++ h.before.effects ∧ effect ∈ new

/-- The runs whose events satisfy `P`, with what was handled in them, the latest first. -/
inductive Run (E : Env) (P : Node → Event → Prop) : List Handled → Node → Prop
  | fresh (lastProcessedSlot : Option Slot) : Run E P [] (Node.fresh E lastProcessedSlot)
  | handle {history : List Handled} {n n' : Node} (fuel : Nat) (event : Event)
      (hn : Run E P history n) (hP : P n event)
      (hrun : ((handleEvent E fuel event).run n).state? = some n') :
      Run E P (⟨n, event, n'⟩ :: history) n'

theorem Run.reachable {E : Env} {P : Node → Event → Prop} {history : List Handled} {n : Node}
    (hn : Run E P history n) : Reachable E P n := by
  induction hn with
  | fresh slot => exact .fresh slot
  | handle fuel event _ hP hrun ih => exact .handle fuel event ih hP hrun

theorem Reachable.mono {E : Env} {P Q : Node → Event → Prop} {n : Node} (hn : Reachable E P n)
    (h : ∀ n event, P n event → Q n event) : Reachable E Q n := by
  induction hn with
  | fresh slot => exact .fresh slot
  | handle fuel event _ hP hrun ih => exact .handle fuel event ih (h _ _ hP) hrun

/-- The node after a list of events, if every handler stops. -/
def runEvents (E : Env) (fuel : Nat) : List Event → Node → Option Node
  | [], n => some n
  | event :: events, n => do
    let n' ← ((handleEvent E fuel event).run n).state?
    runEvents E fuel events n'

theorem runEvents_append {E : Env} {fuel : Nat} {xs ys : List Event} {n : Node} :
    runEvents E fuel (xs ++ ys) n = (runEvents E fuel xs n).bind (runEvents E fuel ys) := by
  induction xs generalizing n with
  | nil => rfl
  | cons event xs ih => simp [runEvents, ih, Option.bind_assoc]

/-- What the handlers of the events preserve holds after them. -/
theorem runEvents_preserves {E : Env} {fuel : Nat} {events : List Event} {n n' : Node}
    {Q : Node → Prop} (hstep : ∀ event ∈ events, ∀ s s', Q s →
      ((handleEvent E fuel event).run s).state? = some s' → Q s')
    (hn : Q n) (hrun : runEvents E fuel events n = some n') : Q n' := by
  induction events generalizing n with
  | nil =>
    cases hrun
    exact hn
  | cons event events ih =>
    obtain ⟨s, hs, hrun⟩ := Option.bind_eq_some_iff.1 hrun
    obtain ⟨hfirst, hrest⟩ := List.forall_mem_cons.1 hstep
    exact ih hrest (hfirst n s hn hs) hrun

theorem Reachable.runEvents {E : Env} {P : Node → Event → Prop} {fuel : Nat} {events : List Event}
    {n n' : Node} (hn : Reachable E P n) (hP : ∀ event ∈ events, ∀ n, P n event)
    (hrun : runEvents E fuel events n = some n') : Reachable E P n' :=
  runEvents_preserves (fun event he s _ hs h => .handle fuel event hs (hP event he s) h) hn hrun

/-- A run whose last state has the value `b` of `f`. -/
theorem Reachable.of_map {E : Env} {P : Node → Event → Prop} (fuel : Nat) (events : List Event)
    (slot : Option Slot) {β : Type} (f : Node → β) (b : β) (hP : ∀ event ∈ events, ∀ n, P n event)
    (h : (Entangrid.runEvents E fuel events (.fresh E slot)).map f = some b) :
    ∃ n, Reachable E P n ∧ f n = b := by
  obtain ⟨n, hrun, hn⟩ := Option.map_eq_some_iff.1 h
  exact ⟨n, .runEvents (.fresh slot) hP hrun, hn⟩

namespace Node

/-- The blocks the node built itself. -/
def builtBlocks (n : Node) : List Block :=
  n.effects.filterMap fun
    | .blockBuilt block => some block
    | _ => none

/-- The orphans the node took out of its list to offer them again. -/
def takenOrphans (n : Node) : List Block :=
  n.effects.filterMap fun
    | .orphanTaken block => some block
    | _ => none

/-- The receipts the node signed. -/
def signedReceipts (n : Node) : List RelayReceipt :=
  n.effects.filterMap fun
    | .receiptSigned receipt => some receipt
    | _ => none

/-- The votes the node signed. -/
def signedVotes (n : Node) : List ProposalVote :=
  n.effects.filterMap fun
    | .voteSigned vote => some vote
    | _ => none

/-- The votes the node stored or buffered, each with the rivals held next to it. -/
def storedVotes (n : Node) : List (ProposalVote × List ProposalVote) :=
  n.effects.filterMap fun
    | .voteStored vote rivals => some (vote, rivals)
    | _ => none

/-- The certificates the node built. -/
def builtQcs (n : Node) : List QuorumCertificate :=
  n.effects.filterMap fun
    | .qcBuilt qc => some qc
    | _ => none

/-- The votes the node handed to the network. -/
def broadcastVotes (n : Node) : List ProposalVote :=
  n.effects.filterMap fun
    | .broadcast (.proposalVote vote) => some vote
    | _ => none

/-- The blocks the node handed to the network. -/
def broadcastBlocks (n : Node) : List Block :=
  n.effects.filterMap fun
    | .broadcast (.blockProposal block) => some block
    | _ => none

/-- The certificates the node handed to the network. -/
def broadcastQcs (n : Node) : List QuorumCertificate :=
  n.effects.filterMap fun
    | .broadcast (.quorumCertificate qc) => some qc
    | _ => none

theorem mem_builtBlocks {n : Node} {block : Block} :
    block ∈ n.builtBlocks ↔ .blockBuilt block ∈ n.effects := by
  simp only [builtBlocks, List.mem_filterMap]
  refine ⟨fun ⟨e, he, h⟩ => ?_, fun h => ⟨_, h, rfl⟩⟩
  cases e <;> simp_all

theorem mem_takenOrphans {n : Node} {block : Block} :
    block ∈ n.takenOrphans ↔ .orphanTaken block ∈ n.effects := by
  simp only [takenOrphans, List.mem_filterMap]
  refine ⟨fun ⟨e, he, h⟩ => ?_, fun h => ⟨_, h, rfl⟩⟩
  cases e <;> simp_all

theorem mem_signedReceipts {n : Node} {receipt : RelayReceipt} :
    receipt ∈ n.signedReceipts ↔ .receiptSigned receipt ∈ n.effects := by
  simp only [signedReceipts, List.mem_filterMap]
  refine ⟨fun ⟨e, he, h⟩ => ?_, fun h => ⟨_, h, rfl⟩⟩
  cases e <;> simp_all

theorem mem_signedVotes {n : Node} {vote : ProposalVote} :
    vote ∈ n.signedVotes ↔ .voteSigned vote ∈ n.effects := by
  simp only [signedVotes, List.mem_filterMap]
  refine ⟨fun ⟨e, he, h⟩ => ?_, fun h => ⟨_, h, rfl⟩⟩
  cases e <;> simp_all

theorem mem_storedVotes {n : Node} {vote : ProposalVote} {rivals : List ProposalVote} :
    (vote, rivals) ∈ n.storedVotes ↔ .voteStored vote rivals ∈ n.effects := by
  simp only [storedVotes, List.mem_filterMap]
  refine ⟨fun ⟨e, he, h⟩ => ?_, fun h => ⟨_, h, rfl⟩⟩
  cases e <;> simp_all

theorem mem_builtQcs {n : Node} {qc : QuorumCertificate} :
    qc ∈ n.builtQcs ↔ .qcBuilt qc ∈ n.effects := by
  simp only [builtQcs, List.mem_filterMap]
  refine ⟨fun ⟨e, he, h⟩ => ?_, fun h => ⟨_, h, rfl⟩⟩
  cases e <;> simp_all

theorem mem_broadcastVotes {n : Node} {vote : ProposalVote} :
    vote ∈ n.broadcastVotes ↔ .broadcast (.proposalVote vote) ∈ n.effects := by
  simp only [broadcastVotes, List.mem_filterMap]
  refine ⟨fun ⟨e, he, h⟩ => ?_, fun h => ⟨_, h, rfl⟩⟩
  split at h <;> simp_all

theorem mem_broadcastQcs {n : Node} {qc : QuorumCertificate} :
    qc ∈ n.broadcastQcs ↔ .broadcast (.quorumCertificate qc) ∈ n.effects := by
  simp only [broadcastQcs, List.mem_filterMap]
  refine ⟨fun ⟨e, he, h⟩ => ?_, fun h => ⟨_, h, rfl⟩⟩
  split at h <;> simp_all

/-- A vote in one of the two vote maps. -/
def Holds (n : Node) (vote : ProposalVote) : Prop :=
  ∃ blockHash validatorId, VoteMap.lookup n.proposalVotes blockHash validatorId = some vote ∨
    VoteMap.lookup n.bufferedProposalVotes blockHash validatorId = some vote

end Node

end Entangrid
