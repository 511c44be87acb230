import Entangrid.Node.Proof.OneVote

/-!
# Who writes what is known of a peer

A node keeps for every peer what it last advertised and which request it was last served. The sync
messages name the validator they speak for, and it is that name the handlers file them under; blocks
and certificates are filed under the authenticated sender.

* `peer_status_written_by_peer`: a message that names its own sender leaves the entries of all other
  validators as they were.
-/

namespace Entangrid

variable {E : Env} {A : Source} {n n' : Node}

/-- What is known of the validators outside `A.peers` stays. -/
theorem Step.keeps_others (h : Step E A n n') {q : ValidatorId} (hq : q ∉ A.peers) :
    n'.peerSyncStatus[q]? = n.peerSyncStatus[q]? ∧
      n'.lastSyncRequestServed[q]? = n.lastSyncRequestServed[q]? := by
  cases h with
  | book _ hrecords =>
    rw [show n'.peerSyncStatus = n.peerSyncStatus from congrArg Records.peerSyncStatus hrecords,
      show n'.lastSyncRequestServed = n.lastSyncRequestServed from
        congrArg Records.lastSyncRequestServed hrecords]
    exact ⟨rfl, rfl⟩
  | recordPeer h => exact h q hq
  | replaceVotes | storeVote | bufferVote =>
    rw [Node.withoutVotes_eq]
    exact ⟨rfl, rfl⟩
  | _ => exact ⟨rfl, rfl⟩

theorem Steps.keeps_others (h : Steps E A n n') {q : ValidatorId} (hq : q ∉ A.peers) :
    n'.peerSyncStatus[q]? = n.peerSyncStatus[q]? ∧
      n'.lastSyncRequestServed[q]? = n.lastSyncRequestServed[q]? := by
  induction h with
  | refl => exact ⟨rfl, rfl⟩
  | tail _ hstep ih =>
    obtain ⟨hstatus, hserved⟩ := hstep.keeps_others hq
    exact ⟨hstatus.trans ih.1, hserved.trans ih.2⟩

/-- **A peer that speaks for itself writes its own entries only.** In every state, handling a message
that names its sender leaves what is known of every other validator as it was. -/
theorem peer_status_written_by_peer (E : Env) (n : Node) (sender : ValidatorId)
    (payload : ProtocolMessage)
    (hspeaker : ∀ v ∈ (Event.received sender payload).speakers, v = sender) (fuel : Nat) (n' : Node)
    (hrun : ((handleEvent E fuel (.received sender payload)).run n).state? = some n')
    (q : ValidatorId) (hq : q ≠ sender) :
    n'.peerSyncStatus[q]? = n.peerSyncStatus[q]? ∧
      n'.lastSyncRequestServed[q]? = n.lastSyncRequestServed[q]? := by
  have hadmits : Source.Admits { peers := {sender} } E n (.received sender payload) :=
    { peers := hspeaker }
  exact Steps.keeps_others ((handleEvent_moves fuel hadmits).of_state? hrun
    (Source.covers_of_univ rfl rfl n)) hq

/-! ## Runs -/

/-- A status of validator 3, sent to node 1. -/
def statusOf3 (sender : ValidatorId) : Event :=
  .received sender (.syncStatus 3 5 9 4 none 0 [])

theorem status_run :
    ((handleEvent (sampleEnv 1) 8 (statusOf3 2)).run (.fresh (sampleEnv 1) (some 1))).state?.map
      (fun n => n.peerSyncStatus[3]?.map (·.height)) = some (some 5) := by
  decide +kernel

/-- Validator 2 asks for blocks, and then validator 3 reports its own status. -/
theorem request_then_status_run :
    ((handleEvent (sampleEnv 1) 8 (.received 2 (.syncRequest 2 7 9))).run
      (.fresh (sampleEnv 1) (some 1))).state?.map (fun n =>
        (n.peerSyncStatus[2]?.map (·.height), n.lastSyncRequestServed[2]?.isSome,
          ((handleEvent (sampleEnv 1) 8 (statusOf3 3)).run n).state?.map
            fun n' => n'.peerSyncStatus[3]?.map (·.height))) =
      some (some 7, true, some (some 5)) := by
  decide +kernel

/-- What node 1 has of validator 2 is kept. -/
theorem own_status_is_filed : ∃ n n', Reachable (sampleEnv 1) AnyEvent n ∧
    ((handleEvent (sampleEnv 1) 8 (statusOf3 3)).run n).state? = some n' ∧
    n.peerSyncStatus[2]?.map (·.height) = some 7 ∧ n.lastSyncRequestServed[2]?.isSome = true ∧
    n'.peerSyncStatus[3]?.map (·.height) = some 5 ∧
    ∀ q ≠ 3, n'.peerSyncStatus[q]? = n.peerSyncStatus[q]? ∧
      n'.lastSyncRequestServed[q]? = n.lastSyncRequestServed[q]? := by
  obtain ⟨n, hn, hvalues⟩ := Option.map_eq_some_iff.1 request_then_status_run
  simp only [Prod.mk.injEq] at hvalues
  obtain ⟨hheight, hserved, hstatus⟩ := hvalues
  obtain ⟨n', hn', hfiled⟩ := Option.map_eq_some_iff.1 hstatus
  refine ⟨n, n', .handle 8 _ (.fresh (some 1)) trivial hn, hn', hheight, hserved, hfiled, ?_⟩
  exact peer_status_written_by_peer (sampleEnv 1) n 3 _
    (fun v hv => by simpa [Event.speakers] using hv) 8 n' hn'

/-- Validator 2 sends a status in the name of validator 3, and node 1 files it under validator 3. -/
theorem status_filed_under_another : ∃ n n', Reachable (sampleEnv 1) AnyEvent n ∧
    ((handleEvent (sampleEnv 1) 8 (statusOf3 2)).run n).state? = some n' ∧
    n'.peerSyncStatus[3]? ≠ n.peerSyncStatus[3]? := by
  obtain ⟨n', hn', hstatus⟩ := Option.map_eq_some_iff.1 status_run
  refine ⟨_, n', .fresh (some 1), hn', fun heq => ?_⟩
  rw [heq] at hstatus
  simp [Node.fresh] at hstatus

end Entangrid
