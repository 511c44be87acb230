import Entangrid.Lib.Fuel
import Entangrid.Node.Sync

/-!
# Operations that only send

A push records what was pushed, everything else only records messages. These operations come back to
every property that does not look at either (`Sends`), and they fail only on an export that does not
replay or a peer that is not configured. Those peers a push goes to are configured.
-/

namespace Entangrid

open Proc (Ends Total)

variable {E : Env} {p : Node → Prop} {errs : Error → Prop} {n : Node}

/-- `p` survives a send, and the errors of an export are among `errs`. -/
structure Sends (E : Env) (p : Node → Prop) (errs : Error → Prop) : Prop where
  effect : ∀ n e, p n → p (n.withEffect e)
  pushed : ∀ n v state, p n → p (n.recordSyncPushServed v state)
  exports : ∀ n e, p n → n.syncExportSnapshot E = .error e → errs e

theorem Sends.any : Sends E (fun _ => True) fun _ => True where
  effect _ _ _ := trivial
  pushed _ _ _ _ := trivial
  exports _ _ _ _ := trivial

/-- A send to `v` finds the peer, or its error is among `errs`. -/
def Reaches (E : Env) (errs : Error → Prop) (v : ValidatorId) : Prop :=
  E.config.peers.any (·.validatorId == v) = true ∨ errs (.unknownPeer v)

theorem Reaches.of_mem {peer : PeerConfig} (h : peer ∈ E.config.peers) :
    Reaches E errs peer.validatorId := .inl (List.any_eq_true.2 ⟨peer, h, beq_self_eq_true _⟩)

namespace Sends

variable (hs : Sends E p errs)
include hs

/-! ## Single messages -/

theorem emit (hp : p n) (e : Effect) : Ends p errs (NodeM.emit e) n := .modify (hs.effect n e hp)

theorem sendTo {v : ValidatorId} (hv : Reaches E errs v) (hp : p n) (message : ProtocolMessage) :
    Ends p errs (NodeM.sendTo E v message) n :=
  .ite (fun _ => hs.emit hp _) fun hunknown => .throw (hv.resolve_left hunknown) hp

theorem broadcastSyncStatus (hp : p n) : Ends p errs (broadcastSyncStatus E) n :=
  .read (hs.emit hp _)

theorem requestSyncFrom {v : ValidatorId} (hv : Reaches E errs v) (hp : p n) :
    Ends p errs (requestSyncFrom E v) n :=
  .read <| .ite (fun _ => .read (hs.sendTo hv hp _)) fun _ => .read (hs.sendTo hv hp _)

omit hs in
/-- The peers that are asked for a sync are configured. -/
theorem reaches_of_bestAhead {excluded : Option ValidatorId} {v : ValidatorId}
    (h : n.bestAheadPeerExcluding E excluded = some v) : Reaches E errs v := by
  obtain ⟨⟨v', status⟩, hhead, rfl⟩ := Option.map_eq_some_iff.1 h
  have hmem := (List.perm_insertionSort _ _).mem_iff.1 (List.mem_of_head? hhead)
  obtain ⟨peer, hpeer, hstatus⟩ := List.mem_filterMap.1 hmem
  split_ifs at hstatus
  all_goals
    obtain ⟨status', -, hstatus⟩ := Option.bind_eq_some_iff.1 hstatus
    cases hstatus
  exact .of_mem hpeer

theorem requestBestExcluding (hp : p n) (excluded : Option ValidatorId) :
    Ends p errs (requestBestAvailableSyncFromAheadPeersExcluding E excluded) n := Ends.read <| by
  split
  · exact .pure hp
  · next v h => exact (hs.requestSyncFrom (reaches_of_bestAhead h) hp).thenPure

/-! ## Exports -/

theorem sendFullSnapshotTo {v : ValidatorId} (hv : Reaches E errs v) (hp : p n) :
    Ends p errs (sendFullSnapshotTo E v) n := by
  refine .read <| .ofExcept_bind hp (fun e he => ?_) fun _ _ => hs.sendTo hv hp _
  exact hs.exports n e hp (error_of_bind_ok he)

theorem sendBestSyncTo {v : ValidatorId} (hv : Reaches E errs v) (hp : p n) (height : Nat)
    (tip : HashBytes) : Ends p errs (sendBestSyncTo E v height tip) n := by
  refine .read <| .ite (fun hunknown => .throw (hv.resolve_left (by simpa using hunknown)) hp)
    fun _ => .ofExcept_bind hp (fun e he => ?_) fun built _ => ?_
  · exact hs.exports n e hp (error_of_bind_ok he)
  · cases built with
    | some chain => exact hs.sendTo hv hp _
    | none => exact hs.sendFullSnapshotTo hv hp

theorem sendBestCertifiedSyncTo {v : ValidatorId} (hv : Reaches E errs v) (hp : p n) :
    Ends p errs (sendBestCertifiedSyncTo E v) n := Ends.read <| by
  split
  · exact .pure hp
  · split
    · exact .pure hp
    · exact (hs.sendTo hv hp _).thenPure

theorem sendAnchoredSuffixSyncTo {v : ValidatorId} (hv : Reaches E errs v) (hp : p n)
    (anchor : SyncQcAnchor) : Ends p errs (sendAnchoredSuffixSyncTo E v anchor) n :=
  .read <| .ite (fun _ => .pure hp) fun _ => .ofExcept_bind hp (fun e => hs.exports n e hp)
    fun _ _ => by
      split
      · exact .pure hp
      · exact hs.sendTo hv hp _

theorem pushBestSyncTo {v : ValidatorId} (hv : Reaches E errs v) (hp : p n) (height : Nat)
    (tip : HashBytes) : Ends p errs (pushBestSyncTo E v height tip) n := by
  refine .read <| .ite (fun _ => .pure hp) fun _ => .ite
    (fun _ => (hs.sendBestCertifiedSyncTo hv hp).bind fun _ _ _ hp =>
      .bind (.pure hp) fun anchoredAt _ _ hp => ?_)
    fun _ => .bind (.pure hp) fun anchoredAt _ _ hp => ?_
  all_goals
    cases anchoredAt with
    | some anchor =>
      exact (hs.sendAnchoredSuffixSyncTo hv hp anchor).bind fun _ _ _ hp =>
        .modify (hs.pushed _ _ _ hp)
    | none =>
      exact (hs.sendBestSyncTo hv hp height tip).bind fun _ _ _ hp => .modify (hs.pushed _ _ _ hp)

/-! ## To all peers -/

theorem pushSyncToStalePeers (hp : p n) : Ends p errs (pushSyncToStalePeers E) n :=
  .read <| .forEach hp fun peer hpeer n' hp => .read <| by
    split
    · exact .ite (fun _ => hs.pushBestSyncTo (.of_mem hpeer) hp _ _) fun _ => .pure hp
    · exact .ite (fun _ => hs.sendFullSnapshotTo (.of_mem hpeer) hp) fun _ => .pure hp

theorem announceCertifiedProgress (hp : p n) : Ends p errs (announceCertifiedProgress E) n :=
  (hs.broadcastSyncStatus hp).bind fun _ _ _ hp => (hs.pushSyncToStalePeers hp).bind
    fun _ _ _ hp => (hs.requestBestExcluding hp none).thenPure

theorem maybePushTipProgress (hp : p n) : Ends p errs (maybePushTipProgressToStalePeers E) n :=
  .read <| .ite (fun _ => (hs.broadcastSyncStatus hp).bind fun _ _ _ hp =>
    hs.pushSyncToStalePeers hp) fun _ => .pure hp

end Sends

theorem announceCertifiedProgress_total : Total (announceCertifiedProgress E) :=
  fun _ => (Sends.any.announceCertifiedProgress trivial).stops

end Entangrid
