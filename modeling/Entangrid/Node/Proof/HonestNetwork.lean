import Entangrid.Node.Cluster
import Entangrid.Node.Proof.PeerStatus
import Entangrid.Node.Proof.Speech

/-!
# A network of honest nodes

Every node runs the code of this development, and a message arrives only if its sender handed it to
the network, for everyone or for that node; it may be late, repeated or lost. Such nodes never find
fault with each other: no receipt is counted as invalid, and nobody writes what a node knows of a
third one.
-/

namespace Entangrid

open Relation (ReflTransGen)

/-- Nodes of one genesis with the same flags and checks, whose own signatures verify. -/
structure HonestNetwork where
  env : ValidatorId → Env
  me : ∀ i, (env i).me = i
  alike : ∀ i j, (env i).SameNetwork (env j)
  flags : ∀ i j, (env j).config.featureFlags = (env i).config.featureFlags
  verifies : ∀ i message signature, (env i).crypto.sign i message = .ok signature →
    (env i).crypto.verify i message signature = .ok true

namespace HonestNetwork

variable {N : HonestNetwork} {s : ClusterState} {i : ValidatorId} {n n' : Node}

/-- The message was handed to the network by its sender, for everyone or for `i`. -/
def Delivers (s : ClusterState) (i : ValidatorId) : Event → Prop
  | .received sender payload =>
    .broadcast payload ∈ (s sender).effects ∨ .sendTo i payload ∈ (s sender).effects
  | _ => True

inductive Reachable (N : HonestNetwork) : ClusterState → Prop
  | fresh (lastProcessedSlot : ValidatorId → Option Slot) :
      Reachable N fun i => Node.fresh (N.env i) (lastProcessedSlot i)
  | handle {s : ClusterState} {n' : Node} (fuel : Nat) (i : ValidatorId) (event : Event)
      (hs : Reachable N s) (hevent : Delivers s i event)
      (hrun : ((handleEvent (N.env i) fuel event).run (s i)).state? = some n') :
      Reachable N (Function.update s i n')

/-- Every node of the network is in a state of one of its own runs. -/
theorem Reachable.node (hs : N.Reachable s) (i : ValidatorId) :
    Entangrid.Reachable (N.env i) AnyEvent (s i) := by
  induction hs generalizing i with
  | fresh slots => exact .fresh _
  | @handle s n' fuel j event _ _ hrun ih =>
    by_cases hij : i = j
    · subst hij
      rw [Function.update_self]
      exact .handle fuel event (ih i) trivial hrun
    · rw [Function.update_of_ne hij]
      exact ih i

/-- A message that arrives is vouched for. -/
theorem Reachable.vouched (hs : N.Reachable s) {sender : ValidatorId} {payload : ProtocolMessage}
    (h : Delivers s i (.received sender payload)) : Vouched (N.env i) sender payload := by
  have hsent : payload ∈ (s sender).sent := Node.mem_sent.2 (h.imp_right fun h => ⟨i, h⟩)
  have hvouched := (hs.node sender).sent_vouched hsent
  rw [N.me sender] at hvouched
  exact (N.alike sender i).vouched (N.flags sender i) hvouched

/-! ## Receipts -/

/-- Nobody was blamed for a receipt. -/
structure Blameless (n : Node) : Prop where
  counted : n.invalidReceipts = 0
  observed : n.observedInvalidReceipts = ∅

/-- Without the hybrid policy a valid receipt is found good. -/
theorem receiptVerdict_of_valid {E : Env} {receipt : RelayReceipt}
    (hplain : E.config.featureFlags.requireHybridValidatorSignatures = false)
    (h : ReceiptValid E receipt) : receiptVerdict E receipt = .ok () := by
  have hpolicy : validateHybridReceiptPolicy E receipt = .ok () := by
    simp [validateHybridReceiptPolicy, requireHybrid, hplain, rejectIf]
  simp only [receiptVerdict, hpolicy, h.signed, h.assigned]

theorem Blameless.write {E : Env} {O : Occasion} (h : Blameless n)
    (hgood : ∀ receipt, O.Suspects E receipt → receiptVerdict E receipt = .ok ())
    (hwrite : Write E O n n') : Blameless n' := by
  cases hwrite with
  | quiet hquiet =>
    have hcounted : n'.invalidReceipts = n.invalidReceipts :=
      congrArg Watched.invalidReceipts hquiet.watched
    exact ⟨hcounted.trans h.counted, hquiet.blamed h.observed⟩
  | blame receipt hsuspect hbad => exact absurd (hgood receipt hsuspect) hbad
  | _ => exact ⟨h.counted, h.observed⟩

/-- What a delivered message brings is good, and so is what a node makes itself. -/
theorem Reachable.suspects_good (hs : N.Reachable s)
    (hplain : (N.env i).config.featureFlags.requireHybridValidatorSignatures = false) {event : Event}
    (hevent : Delivers s i event) {receipt : RelayReceipt}
    (hsuspect : (Occasion.of (N.env i) (s i) event).Suspects (N.env i) receipt) :
    receiptVerdict (N.env i) receipt = .ok () := by
  rcases hsuspect with harrived | hvalid | hown
  · cases event with
    | received sender payload =>
      have hvouched := hs.vouched hevent
      cases payload with
      | relayReceipt r =>
        obtain rfl := List.mem_singleton.1 (show receipt ∈ [r] from harrived)
        exact hvouched
      | receiptResponse _ _ _ receipts =>
        exact receiptVerdict_of_valid hplain (hvouched.2 receipt harrived)
      | _ => cases harrived
    | _ => exact harrived.elim
  · exact receiptVerdict_of_valid hplain hvalid
  · refine receiptVerdict_of_valid hplain ⟨?_, hown.assigned⟩
    have hsigned := hown.signed
    rw [N.me i] at hsigned
    rw [hown.witness, N.me i]
    exact N.verifies i _ _ hsigned

theorem Reachable.blameless (hs : N.Reachable s)
    (hplain : ∀ i, (N.env i).config.featureFlags.requireHybridValidatorSignatures = false)
    (i : ValidatorId) : Blameless (s i) := by
  induction hs generalizing i with
  | fresh slots => exact ⟨rfl, rfl⟩
  | @handle s n' fuel j event hs hevent hrun ih =>
    by_cases hij : i = j
    · subst hij
      rw [Function.update_self]
      have hchain := (hs.node i).writes hrun
      clear hrun
      induction hchain with
      | refl => exact ih i
      | tail _ hlast ih => exact ih.write (fun _ => hs.suspects_good (hplain i) hevent) hlast
    · rw [Function.update_of_ne hij]
      exact ih i

/-! ## Peers -/

/-- The validators a vouched message speaks for are its sender. -/
theorem speakers_of_vouched {E : Env} {sender : ValidatorId} {payload : ProtocolMessage}
    (h : Vouched E sender payload) : ∀ v ∈ (Event.received sender payload).speakers, v = sender := by
  intro v hv
  cases payload with
  | syncStatus | syncRequest | syncResponse | syncBlocks =>
    obtain rfl := List.mem_singleton.1 hv
    exact h
  | certifiedSyncResponse response =>
    cases response with
    | certified r =>
      obtain rfl := List.mem_singleton.1 hv
      exact h
    | unavailable => exact List.mem_singleton.1 hv
  | _ => exact List.mem_singleton.1 hv

/-- **Honest nodes find no fault with each other.** In every state the network reaches, no node has
counted an invalid receipt against anyone, and whatever message arrives next, a node changes what it
knows of its sender only: the sync status and the last served request of every other validator stay. -/
theorem honest_network (N : HonestNetwork)
    (hplain : ∀ i, (N.env i).config.featureFlags.requireHybridValidatorSignatures = false)
    (s : ClusterState) (hs : N.Reachable s) (i : ValidatorId) :
    Blameless (s i) ∧
      ∀ sender payload fuel n', Delivers s i (.received sender payload) →
        ((handleEvent (N.env i) fuel (.received sender payload)).run (s i)).state? = some n' →
        ∀ q ≠ sender, n'.peerSyncStatus[q]? = (s i).peerSyncStatus[q]? ∧
          n'.lastSyncRequestServed[q]? = (s i).lastSyncRequestServed[q]? := by
  refine ⟨hs.blameless hplain i, fun sender payload fuel n' hdelivers hrun q hq => ?_⟩
  have hadmits : Source.Admits { peers := {sender} } (N.env i) (s i) (.received sender payload) :=
    { peers := speakers_of_vouched (hs.vouched hdelivers) }
  exact Steps.keeps_others ((handleEvent_moves fuel hadmits).of_state? hrun
    (Source.covers_of_univ rfl rfl _)) hq

/-! ## A run

Validator 3 beats, validator 1 signs a receipt for it and relays it to the others. -/

theorem receiptEnv_verifies (i : ValidatorId) (message : HashBytes) (signature : TypedSignature)
    (h : (receiptEnv i).crypto.sign i message = .ok signature) :
    (receiptEnv i).crypto.verify i message signature = .ok true := by
  cases hsecret : (DeterministicCryptoBackend.fromGenesis rollingHashing sampleGenesis).secrets[i]? with
  | none =>
    change DeterministicCryptoBackend.sign _ _ _ = _ at h
    simp only [DeterministicCryptoBackend.sign, DeterministicCryptoBackend.secret, hsecret] at h
    cases h
  | some secret => exact ((sampleEnv_signsCorrectly hsecret).verifies message signature h).1

def receiptNetwork : HonestNetwork where
  env := receiptEnv
  me _ := rfl
  alike _ _ := ⟨rfl, rfl, rfl, rfl⟩
  flags _ _ := rfl
  verifies := receiptEnv_verifies

deriving instance DecidableEq for HeartbeatPulse

def firstPulse : HeartbeatPulse where
  epoch := 0
  slot := 0
  sourceValidatorId := 3
  sequenceNumber := 0
  emittedAtUnixMillis := 0

def broadcastReceipts (n : Node) : List RelayReceipt :=
  n.effects.filterMap fun
    | .broadcast (.relayReceipt receipt) => some receipt
    | _ => none

theorem mem_broadcastReceipts {receipt : RelayReceipt} (h : receipt ∈ broadcastReceipts n) :
    .broadcast (.relayReceipt receipt) ∈ n.effects := by
  obtain ⟨e, he, heq⟩ := List.mem_filterMap.1 h
  split at heq
  · cases heq
    exact he
  · cases heq

/-- A fresh node after its first event. -/
def afterFirst (i : ValidatorId) (event : Event) : Option Node :=
  ((handleEvent (receiptEnv i) 8 event).run (.fresh (receiptEnv i) none)).state?

def firstReceipt : RelayReceipt :=
  ((afterFirst 1 (.received 3 (.heartbeatPulse firstPulse))).bind (·.receipts.head?)).getD
    { epoch := 0, slot := 0, sourceValidatorId := 0, destinationValidatorId := 0
      witnessValidatorId := 0, messageClass := .heartbeat, transcriptDigest := 0, latencyBucketMs := 0
      byteCountBucket := 0, sequenceNumber := 0, signature := {} }

theorem beat_run : (afterFirst 3 .slotTick).map (·.beats) = some [firstPulse] ∧
    (afterFirst 1 (.received 3 (.heartbeatPulse firstPulse))).map broadcastReceipts =
      some [firstReceipt] ∧
    (afterFirst 2 (.received 1 (.relayReceipt firstReceipt))).map (·.receipts.length) = some 1 := by
  decide +kernel

/-- Validator 2 ends with the receipt, and finds it good. -/
theorem relayed_receipt_is_good : ∃ s, receiptNetwork.Reachable s ∧ (s 2).receipts.length = 1 ∧
    Blameless (s 2) := by
  obtain ⟨hbeat, hwitness, hrelay⟩ := beat_run
  obtain ⟨n₃, hn₃, hpulses⟩ := Option.map_eq_some_iff.1 hbeat
  obtain ⟨n₁, hn₁, hreceipts⟩ := Option.map_eq_some_iff.1 hwitness
  obtain ⟨n₂, hn₂, hlength⟩ := Option.map_eq_some_iff.1 hrelay
  have hpulse : .broadcast (.heartbeatPulse firstPulse) ∈ n₃.effects := by
    apply Node.mem_beats.1
    rw [hpulses]
    exact .head _
  have hreceipt : .broadcast (.relayReceipt firstReceipt) ∈ n₁.effects := by
    apply mem_broadcastReceipts
    rw [hreceipts]
    exact .head _
  have h₀ : receiptNetwork.Reachable fun i => Node.fresh (receiptEnv i) none := .fresh fun _ => none
  have h₃ := h₀.handle 8 3 .slotTick trivial hn₃
  have h₁ := h₃.handle 8 1 (.received 3 (.heartbeatPulse firstPulse)) (.inl (by simpa using hpulse))
    (by rw [Function.update_of_ne (by decide)]; exact hn₁)
  have h₂ := h₁.handle 8 2 (.received 1 (.relayReceipt firstReceipt))
    (.inl (by simpa using hreceipt)) (by
      rw [Function.update_of_ne (by decide), Function.update_of_ne (by decide)]
      exact hn₂)
  exact ⟨_, h₂, by simpa using hlength, (honest_network receiptNetwork (fun _ => rfl) _ h₂ 2).1⟩

end HonestNetwork

end Entangrid
