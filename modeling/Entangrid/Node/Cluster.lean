import Entangrid.Node.Run

/-!
# A network of nodes

The nodes of a genesis, all running the model of this development, over a network that delays,
reorders, duplicates and drops the block proposals, votes and certificates they broadcast. Ticks and
inbox files come to every node at any time.
-/

namespace Entangrid

/-- The surroundings of the nodes, which agree on the genesis. -/
structure Cluster where
  env : ValidatorId → Env
  genesis : GenesisConfig
  sameGenesis : ∀ i, (env i).genesis = genesis
  me : ∀ i, (env i).me = i
  v2 : ∀ i, (env i).v2 = true

/-- The state of every node. -/
abbrev ClusterState := ValidatorId → Node

namespace Cluster

/-- What can happen at a node: a local event, or the arrival of a message that was broadcast. -/
def Delivers (s : ClusterState) : Event → Prop
  | .received sender (.blockProposal block) => block ∈ (s sender).broadcastBlocks
  | .received sender (.proposalVote vote) => vote ∈ (s sender).broadcastVotes
  | .received sender (.quorumCertificate qc) => qc ∈ (s sender).broadcastQcs
  | .received _ _ => False
  | _ => True

inductive Reachable (C : Cluster) : ClusterState → Prop
  | fresh (lastProcessedSlot : ValidatorId → Option Slot) :
      Reachable C fun i => Node.fresh (C.env i) (lastProcessedSlot i)
  | handle {s : ClusterState} {n' : Node} (fuel : Nat) (i : ValidatorId) (event : Event)
      (hs : Reachable C s) (hevent : Delivers s event)
      (hrun : ((handleEvent (C.env i) fuel event).run (s i)).state? = some n') :
      Reachable C (Function.update s i n')

/-- One node handles several events, delivered by the others. -/
theorem Reachable.runNode {C : Cluster} {s : ClusterState} {fuel : Nat} {n' : Node}
    (hs : C.Reachable s) (i : ValidatorId) (events : List Event)
    (hevents : ∀ event ∈ events, ∀ n, Delivers (Function.update s i n) event)
    (hrun : runEvents (C.env i) fuel events (s i) = some n') :
    C.Reachable (Function.update s i n') := by
  induction events generalizing s with
  | nil =>
    obtain rfl := Option.some.inj hrun
    rwa [Function.update_eq_self]
  | cons event events ih =>
    obtain ⟨n₁, h₁, hrun⟩ := Option.bind_eq_some_iff.1 hrun
    have hevent : Delivers s event := by
      have := hevents event (by simp) (s i)
      rwa [Function.update_eq_self] at this
    have := ih (hs.handle fuel i event hevent h₁)
      (fun e he n => by rw [Function.update_idem]; exact hevents e (by simp [he]) n)
      (by rwa [Function.update_self])
    rwa [Function.update_idem] at this

end Cluster

end Entangrid
