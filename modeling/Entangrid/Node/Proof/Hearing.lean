import Entangrid.Lib.Gossip
import Entangrid.Node.Proof.Landing

/-!
# Hearing of each other

In a network of honest nodes without `consensus_v2`, chains travel by sync: on a tick, a status or a
request a node hands out its chain, and other nodes take it in. Along a chain of such exchanges a node
is brought to where the first one stood. So nodes that have heard of each other, while no chain
appeared that stands above all of theirs, have one chain.
-/

namespace Entangrid

open LedgerState
open Relation (ReflTransGen)

/-- Nodes of one network that stand at the same point have the same ledger and the same blocks. -/
theorem Grounded.same_of_standing {E E' : Env} {S : Set Block} {a b : Node}
    (hpeer : E.SameNetwork E') (hS : CollisionFree E.hashing S)
    (hlast : ∀ b ∈ S, b.header.blockNumber + 1 < 2 ^ 64) (ha : Grounded E S a) (hb : Grounded E' S b)
    (h : a.standing = b.standing) :
    a.ledger = b.ledger ∧ a.blocks.map (·.blockHash) = b.blocks.map (·.blockHash) := by
  have hchain := ha.numbered.toStoreInv.chainOf ha.numbered.arrived
  have hchain' := hb.numbered.toStoreInv.chainOf hb.numbered.arrived
  rw [hpeer.hashing] at hchain'
  obtain ⟨hheight, hrest⟩ := Prod.ext_iff.1 (toLex.injective h)
  obtain ⟨-, htip⟩ := Prod.ext_iff.1 (toLex.injective hrest)
  have hheight : a.ledger.snapshot.height = b.ledger.snapshot.height := hheight
  have htip : a.ledger.snapshot.tipHash = b.ledger.snapshot.tipHash := htip
  rw [ha.numbered.height_eq hlast, hb.numbered.height_eq hlast] at hheight
  rw [ha.numbered.tip, hb.numbered.tip] at htip
  have hmap : a.blocks.map (·.blockHash) = b.blocks.map (·.blockHash) :=
    HashChain.map_hash_eq_of_length_eq hchain.1 hchain'.1 hheight
      (fun x hx y hy => hchain.parent_eq hS hchain' x hx y hy) htip
  refine ⟨?_, hmap⟩
  have hreplay := hb.numbered.replay
  rw [replayBlocks, hpeer.applyBlocks_eq, hpeer.genesis,
    ← hS.applyBlocks_eq hchain.2 hchain'.2 hmap] at hreplay
  exact Except.ok.inj (ha.numbered.replay.symm.trans hreplay)

namespace HonestNetwork

variable {N : HonestNetwork} {s s' : ClusterState} {run : ℕ → ClusterState} {i j k : ValidatorId}
  {t t' T : ℕ} {payload : ProtocolMessage}

/-- Between the two states, node `i` handles the event. -/
def Handles (N : HonestNetwork) (s s' : ClusterState) (i : ValidatorId) (event : Event) : Prop :=
  ∃ fuel n', Delivers s i event ∧
    ((handleEvent (N.env i) fuel event).run (s i)).state? = some n' ∧ s' = Function.update s i n'

theorem Handles.next {event : Event} (h : N.Handles s s' i event) : N.Next s s' := by
  obtain ⟨fuel, n', hevent, hrun, hs'⟩ := h
  exact ⟨fuel, i, event, n', hevent, hrun, hs'⟩

/-- A course of the network: at each time a node handles an event, or nothing happens. -/
structure Course (N : HonestNetwork) (run : ℕ → ClusterState) : Prop where
  start : N.Reachable (run 0)
  next : ∀ t, N.Next (run t) (run (t + 1)) ∨ run (t + 1) = run t

/-- On a sync tick, a status or a request, node `k` hands the message out. -/
def Tells (N : HonestNetwork) (run : ℕ → ClusterState) (t : ℕ) (k : ValidatorId)
    (payload : ProtocolMessage) : Prop :=
  ∃ event messages, N.Handles (run t) (run (t + 1)) k event ∧ event.AsksForSync ∧
    (run (t + 1) k).sent = messages ++ (run t k).sent ∧ payload ∈ messages

/-- What is told is an export. -/
theorem Tells.exports (h : N.Tells run t k payload) (hv1 : (N.env k).v2 = false) :
    Exports (N.env k) (run t k) payload := by
  obtain ⟨event, messages, ⟨fuel, n', -, hrun, heq⟩, hasks, hsent, hmem⟩ := h
  obtain ⟨served, hserved, hexports⟩ := ((handleEvent_serves hv1 fuel hasks _).of_state? hrun).sent
  rw [heq, Function.update_self, hserved] at hsent
  rw [← List.append_cancel_right hsent] at hmem
  exact hexports payload hmem

/-- Node `i` handles the message, the rate limit lets it pass, and its chain fits that of the node. -/
def Takes (N : HonestNetwork) (run : ℕ → ClusterState) (t : ℕ) (i : ValidatorId)
    (payload : ProtocolMessage) : Prop :=
  ∃ sender, N.Handles (run t) (run (t + 1)) i (.received sender payload) ∧
    Admitted (N.env i) (run t i) sender payload ∧ Fits (run t i) payload

/-- At time `t`, node `i` has heard of node `j`. -/
abbrev Heard (N : HonestNetwork) (run : ℕ → ClusterState) : ℕ → ValidatorId → ValidatorId → Prop :=
  Gossip.Heard (N.Tells run) (N.Takes run)

namespace Course

variable (h : N.Course run)
include h

theorem steps (hle : t ≤ t') : ReflTransGen N.Next (run t) (run t') := by
  induction t', hle using Nat.le_induction with
  | base => exact .refl
  | succ t' _ ih =>
    rcases h.next t' with hnext | hsame
    · exact ih.tail hnext
    · rw [hsame]
      exact ih

theorem reachable (t : ℕ) : N.Reachable (run t) := h.start.run (h.steps (Nat.zero_le t))

theorem builtBlocks_subset (hle : t ≤ T) : builtBlocks (run t) ⊆ builtBlocks (run T) :=
  (h.reachable t).builtBlocks_subset (h.steps hle)

section
variable (hN : N.Plain (builtBlocks (run T)))
include hN

theorem grounded (hle : t ≤ T) (i : ValidatorId) :
    Grounded (N.env i) (builtBlocks (run T)) (run t i) :=
  (h.reachable t).grounded hN (h.builtBlocks_subset hle) i

section
variable (hdefault : ∀ i, OwnCommitmentsDefault (N.env i))
include hdefault

theorem exporter (hle : t ≤ T) (i : ValidatorId) :
    Exporter (N.env i) (builtBlocks (run T)) (run t i) where
  toGrounded := h.grounded hN hle i
  importable := by
    have hagreed := (h.reachable t).agreed hN.free hdefault (h.builtBlocks_subset hle) i
    exact (hagreed.mono fun _ _ h => h.2).importInv (hdefault i)
  receipts := ((h.reachable t).node i).receiptInv.book.toReceiptsSound

/-- **Who takes in what another tells catches up with it.** -/
theorem lifts : Gossip.Lifts (N.Tells run) (N.Takes run) (fun t i => (run t i).standing) T where
  grows t ht i := by
    rcases h.next t with hnext | hsame
    · exact (hnext.rises hN (h.reachable t) (h.builtBlocks_subset ht) i (h.grounded hN ht.le i)).2
    · rw [hsame]
  passes t ht t₀ hbefore i k payload htell htake := by
    obtain ⟨sender, hhandles, hadmitted, hfits⟩ := htake
    have hrises := (hhandles.next.rises hN (h.reachable t) (h.builtBlocks_subset ht) i
      (h.grounded hN ht.le i)).2
    have hsigned := ((h.reachable (t + 1)).node i).signedVotes (hN.v1 i)
    have hown (b : Block) (hb : b ∈ (run (t + 1) i).builtBlocks) : b ∈ builtBlocks (run T) :=
      h.builtBlocks_subset ht ⟨i, hb⟩
    obtain ⟨fuel, n', -, hrun, heq⟩ := hhandles
    rw [heq, Function.update_self] at hrises hsigned hown ⊢
    exact (h.grounded hN ht.le i).takes_in (hN.v1 i) (hN.free i) hN.last (hN.validators i) hown hsigned
      (N.alike k i) (h.exporter hN hdefault (hbefore.trans ht.le) k) (htell.exports (hN.v1 k))
      hadmitted hfits hrun hrises

end

end

end Course

/-- **Hearing of each other brings agreement.** In a network of honest nodes without `consensus_v2`,
whoever has heard of a node stands at least where that node stood at the start; and nodes that have
heard of each other, none of them beyond where all of them started, have the same ledger and the same
blocks. -/
theorem hearing_brings_agreement (N : HonestNetwork)
    (hdefault : ∀ i, OwnCommitmentsDefault (N.env i)) (run : ℕ → ClusterState) (hrun : N.Course run)
    (T : ℕ) (hN : N.Plain (builtBlocks (run T))) :
    (∀ i j, N.Heard run T i j → (run 0 j).standing ≤ (run T i).standing) ∧
    ∀ group : Set ValidatorId, (∀ i ∈ group, ∀ j ∈ group, N.Heard run T i j) →
      (∀ i ∈ group, ∃ j ∈ group, (run T i).standing ≤ (run 0 j).standing) →
      ∀ i ∈ group, ∀ j ∈ group, (run T i).ledger = (run T j).ledger ∧
        (run T i).blocks.map (·.blockHash) = (run T j).blocks.map (·.blockHash) := by
  have hlifts := hrun.lifts hN hdefault
  refine ⟨fun i j hheard => Gossip.Heard.le hlifts (le_refl T) hheard, ?_⟩
  intro group hheard hbound i hi j hj
  have hagree := Gossip.Heard.agree hlifts hheard hbound hi hj
  exact (hrun.grounded hN (le_refl T) i).same_of_standing (N.alike i j) (hN.free i) hN.last
    (hrun.grounded hN (le_refl T) j) hagree

/-! ## A run

Validator 4 has built a block. On a sync tick it hands its chain to validator 1 and asks for theirs;
validator 1 takes it in and answers, and validator 4 takes in the answer. -/

def isSnapshot : ProtocolMessage → Bool
  | .syncResponse _ _ => true
  | _ => false

def snapshotsFor (i : ValidatorId) (n : Node) : List ProtocolMessage :=
  n.effects.filterMap fun
    | .sendTo j payload => if j = i ∧ isSnapshot payload then some payload else none
    | _ => none

def isRequest : ProtocolMessage → Bool
  | .syncRequest _ _ _ => true
  | _ => false

def broadcastRequests (n : Node) : List ProtocolMessage :=
  n.effects.filterMap fun
    | .broadcast payload => if isRequest payload then some payload else none
    | _ => none

theorem mem_snapshotsFor {n : Node} (h : payload ∈ snapshotsFor i n) :
    .sendTo i payload ∈ n.effects ∧ isSnapshot payload = true := by
  obtain ⟨e, he, heq⟩ := List.mem_filterMap.1 h
  cases e with
  | sendTo j message =>
    dsimp only at heq
    split_ifs at heq with hmessage
    cases heq
    exact ⟨hmessage.1 ▸ he, hmessage.2⟩
  | _ => cases heq

theorem mem_broadcastRequests {n : Node} (h : payload ∈ broadcastRequests n) :
    .broadcast payload ∈ n.effects ∧ isRequest payload = true := by
  obtain ⟨e, he, heq⟩ := List.mem_filterMap.1 h
  cases e with
  | broadcast message =>
    dsimp only at heq
    split_ifs at heq with hmessage
    cases heq
    exact ⟨he, hmessage⟩
  | _ => cases heq

theorem asksForSync_request (h : isRequest payload = true) :
    (Event.received j payload).AsksForSync := by
  cases payload with
  | syncRequest => trivial
  | _ => cases h

/-- The first snapshot that a node sends is told by the event that made it send it. -/
theorem tells_snapshot {event : Event} (hs : N.Reachable (run t))
    (h : N.Handles (run t) (run (t + 1)) k event) (hasks : event.AsksForSync)
    (hnone : (run t k).sent.any isSnapshot = false)
    (hsent : payload ∈ snapshotsFor i (run (t + 1) k)) : N.Tells run t k payload := by
  obtain ⟨hsent, hsnapshot⟩ := mem_snapshotsFor hsent
  obtain ⟨fuel, n', hevent, hrun, heq⟩ := h
  have hsuffix := effects_suffix_of_chain ((hs.node k).writes hrun)
  obtain ⟨messages, hmessages⟩ : (run t k).sent <:+ n'.sent := hsuffix.filterMap _
  refine ⟨event, messages, ⟨fuel, n', hevent, hrun, heq⟩, hasks, ?_, ?_⟩
  · rw [heq, Function.update_self, hmessages]
  · rw [heq, Function.update_self] at hsent
    have hmem : payload ∈ n'.sent := Node.mem_sent.2 (.inr ⟨i, hsent⟩)
    rw [← hmessages] at hmem
    rcases List.mem_append.1 hmem with hmem | hold
    · exact hmem
    · exact absurd hsnapshot (List.any_eq_false.1 hnone payload hold)

theorem fits_snapshot {n : Node} (h : isSnapshot payload = true) : Fits n payload := by
  cases payload with
  | syncResponse => trivial
  | _ => cases h

/-- The nodes and the messages of the run. -/
structure Dialogue where
  built : Node
  served : Node
  payload : ProtocolMessage
  taken : Node
  request : ProtocolMessage
  answered : Node
  answer : ProtocolMessage
  closed : Node

/-- What the run comes to, as far as it can be computed. -/
def Dialogue.Holds (d : Dialogue) : Prop :=
  (d.built.sent.any isSnapshot = false ∧ d.taken.sent.any isSnapshot = false) ∧
    (Admitted (plainEnv 1) (Node.fresh (plainEnv 1) none) 4 d.payload ∧
      Admitted (plainEnv 4) d.served 1 d.answer) ∧
    (d.answered.standing = d.built.standing ∧ d.closed.standing = d.built.standing) ∧
    d.closed.builtBlocks.map (fun b =>
      (b.header.blockNumber, blockBodyHash rollingHashing b == empty_hash)) = [(1, false)] ∧
    d.answered.builtBlocks.length = 0 ∧ d.answered.blocks.length = 1

instance (d : Dialogue) : Decidable d.Holds := inferInstanceAs (Decidable (_ ∧ _ ∧ _ ∧ _ ∧ _ ∧ _))

def dialogue : Option Dialogue := do
  let built ← afterEvent 4 (.fresh (plainEnv 4) none) .slotTick
  let served ← afterEvent 4 built .syncTick
  let payload ← (snapshotsFor 1 served).head?
  let taken ← afterEvent 1 (.fresh (plainEnv 1) none) (.received 4 payload)
  let request ← (broadcastRequests served).head?
  let answered ← afterEvent 1 taken (.received 4 request)
  let answer ← (snapshotsFor 4 answered).head?
  let closed ← afterEvent 4 served (.received 1 answer)
  some { built, served, payload, taken, request, answered, answer, closed }

theorem dialogue_run : dialogue.any (fun d => decide d.Holds) = true := by
  decide +kernel

theorem dialogue_steps {d : Dialogue} (h : dialogue = some d) :
    afterEvent 4 (.fresh (plainEnv 4) none) .slotTick = some d.built ∧
    afterEvent 4 d.built .syncTick = some d.served ∧ d.payload ∈ snapshotsFor 1 d.served ∧
    afterEvent 1 (.fresh (plainEnv 1) none) (.received 4 d.payload) = some d.taken ∧
    d.request ∈ broadcastRequests d.served ∧
    afterEvent 1 d.taken (.received 4 d.request) = some d.answered ∧
    d.answer ∈ snapshotsFor 4 d.answered ∧
    afterEvent 4 d.served (.received 1 d.answer) = some d.closed := by
  simp only [dialogue, Option.bind_eq_bind, Option.bind_eq_some_iff] at h
  obtain ⟨built, hbuild, served, hserve, payload, hpayload, taken, htake, request, hrequest,
    answered, hask, answer, hanswer, closed, hclose, h⟩ := h
  cases h
  exact ⟨hbuild, hserve, List.mem_of_head? hpayload, htake, List.mem_of_head? hrequest, hask,
    List.mem_of_head? hanswer, hclose⟩

/-- The states of the network in the run. -/
def Dialogue.course (d : Dialogue) : ℕ → ClusterState
  | 0 => Function.update freshCluster 4 d.built
  | 1 => Function.update freshCluster 4 d.served
  | 2 => Function.update (Function.update freshCluster 4 d.served) 1 d.taken
  | 3 => Function.update (Function.update freshCluster 4 d.served) 1 d.answered
  | _ => Function.update (Function.update freshCluster 1 d.answered) 4 d.closed

theorem handles_of_afterEvent (event : Event) (n' : Node) (hevent : Delivers s i event)
    (h : afterEvent i (s i) event = some n') (hs' : s' = Function.update s i n') :
    plainNetwork.Handles s s' i event := ⟨8, n', hevent, h, hs'⟩

theorem dialogue_handles {d : Dialogue} (h : dialogue = some d) :
    plainNetwork.Handles (d.course 0) (d.course 1) 4 .syncTick ∧
    plainNetwork.Handles (d.course 1) (d.course 2) 1 (.received 4 d.payload) ∧
    plainNetwork.Handles (d.course 2) (d.course 3) 1 (.received 4 d.request) ∧
    plainNetwork.Handles (d.course 3) (d.course 4) 4 (.received 1 d.answer) := by
  obtain ⟨-, hserve, hpayload, htake, hrequest, hask, hanswer, hclose⟩ := dialogue_steps h
  have hne : (1 : ValidatorId) ≠ 4 := by decide
  refine ⟨handles_of_afterEvent _ d.served trivial ?_ ?_,
    handles_of_afterEvent _ d.taken (.inr ?_) ?_ ?_,
    handles_of_afterEvent _ d.answered (.inl ?_) ?_ ?_,
    handles_of_afterEvent _ d.closed (.inr ?_) ?_ ?_⟩
  · simpa [Dialogue.course] using hserve
  · simp [Dialogue.course]
  · simpa [Dialogue.course] using (mem_snapshotsFor hpayload).1
  · simpa [Dialogue.course, hne, freshCluster] using htake
  · simp [Dialogue.course]
  · simpa [Dialogue.course, hne.symm] using (mem_broadcastRequests hrequest).1
  · simpa [Dialogue.course] using hask
  · simp [Dialogue.course]
  · simpa [Dialogue.course] using (mem_snapshotsFor hanswer).1
  · simpa [Dialogue.course, hne.symm] using hclose
  · show Function.update (Function.update freshCluster 1 d.answered) 4 d.closed = _
    simp only [Dialogue.course, Function.update_comm hne, Function.update_idem]

theorem dialogue_course {d : Dialogue} (h : dialogue = some d) : plainNetwork.Course d.course := by
  obtain ⟨hbuild, -⟩ := dialogue_steps h
  obtain ⟨h₁, h₂, h₃, h₄⟩ := dialogue_handles h
  refine ⟨freshCluster_reachable.next (next_of_afterEvent .slotTick trivial hbuild), fun t => ?_⟩
  rcases t with _ | _ | _ | _ | t
  · exact .inl h₁.next
  · exact .inl h₂.next
  · exact .inl h₃.next
  · exact .inl h₄.next
  · exact .inr rfl

theorem dialogue_heard {d : Dialogue} (h : dialogue = some d) (hd : d.Holds) :
    plainNetwork.Heard d.course 4 1 4 ∧ plainNetwork.Heard d.course 4 4 1 := by
  have hrun := dialogue_course h
  obtain ⟨-, -, hpayload, -, hrequest, -, hanswer, -⟩ := dialogue_steps h
  obtain ⟨h₁, h₂, h₃, h₄⟩ := dialogue_handles h
  obtain ⟨⟨hnone, hnone'⟩, ⟨hadmitted, hadmitted'⟩, -⟩ := hd
  have hne : (1 : ValidatorId) ≠ 4 := by decide
  have hasks := asksForSync_request (j := 4) (mem_broadcastRequests hrequest).2
  have htell : plainNetwork.Tells d.course 0 4 d.payload := by
    apply tells_snapshot (i := 1) (hrun.reachable 0) h₁ trivial
    · simpa [Dialogue.course] using hnone
    · simpa [Dialogue.course] using hpayload
  have htake : plainNetwork.Takes d.course 1 1 d.payload := by
    refine ⟨4, h₂, ?_, fits_snapshot (mem_snapshotsFor hpayload).2⟩
    show Admitted (plainEnv 1) (d.course 1 1) 4 d.payload
    simpa [Dialogue.course, hne, freshCluster] using hadmitted
  have htell' : plainNetwork.Tells d.course 2 1 d.answer := by
    apply tells_snapshot (i := 4) (hrun.reachable 2) h₃ hasks
    · simpa [Dialogue.course] using hnone'
    · simpa [Dialogue.course] using hanswer
  have htake' : plainNetwork.Takes d.course 3 4 d.answer := by
    refine ⟨1, h₄, ?_, fits_snapshot (mem_snapshotsFor hanswer).2⟩
    show Admitted (plainEnv 4) (d.course 3 4) 1 d.answer
    simpa [Dialogue.course, hne.symm] using hadmitted'
  have hself : plainNetwork.Heard d.course 2 1 1 := .stay (.stay (.self 1))
  exact ⟨.stay (.stay (.hear (Nat.zero_le 1) htell htake (.self 4))),
    .hear (by decide : 2 ≤ 3) htell' htake' hself⟩

/-- Validators 1 and 4 have heard of each other, and have the block that validator 4 built. -/
theorem dialogue_agrees : ∃ run, plainNetwork.Course run ∧
    (run 0 1).blocks.length = 0 ∧ (run 4 1).blocks.length = 1 ∧
    plainNetwork.Heard run 4 1 4 ∧ plainNetwork.Heard run 4 4 1 ∧
    (run 4 1).ledger = (run 4 4).ledger := by
  obtain ⟨d, hd, hholds⟩ := (Option.any_eq_true _ _).1 dialogue_run
  have hholds : d.Holds := of_decide_eq_true hholds
  have hrun := dialogue_course hd
  obtain ⟨hheard, hheard'⟩ := dialogue_heard hd hholds
  obtain ⟨-, -, ⟨hstanding, hstanding'⟩, hbuilt, hzero, hlen⟩ := hholds
  have hne : (1 : ValidatorId) ≠ 4 := by decide
  have hone : d.course 4 1 = d.answered := by simp [Dialogue.course, hne]
  have hfour : d.course 4 4 = d.closed := by simp [Dialogue.course]
  have hfirst : (d.course 0 4).standing = d.built.standing := by simp [Dialogue.course]
  have hplain : plainNetwork.Plain (builtBlocks (d.course 4)) := by
    apply plain_of_single (i := 4)
    · rwa [hfour]
    · intro j hj
      by_cases hj₁ : j = 1
      · rw [hj₁, hone]
        exact List.length_eq_zero_iff.1 hzero
      · show (Function.update (Function.update freshCluster 1 d.answered) 4 d.closed j).builtBlocks = _
        rw [Function.update_of_ne hj, Function.update_of_ne hj₁]
        rfl
  have hagree := (hearing_brings_agreement plainNetwork (fun _ => .inl rfl) d.course hrun 4 hplain).2
    {i | i = 1 ∨ i = 4} ?_ ?_ 1 (.inl rfl) 4 (.inr rfl)
  · refine ⟨d.course, hrun, ?_, by rwa [hone], hheard, hheard', hagree.1⟩
    simp [Dialogue.course, hne, freshCluster, Node.fresh]
  · rintro i (rfl | rfl) j (rfl | rfl)
    · exact .stay (.stay (.stay (.stay (.self 1))))
    · exact hheard
    · exact hheard'
    · exact .stay (.stay (.stay (.stay (.self 4))))
  · rintro i (rfl | rfl)
    · exact ⟨4, .inr rfl, by rw [hone, hfirst, hstanding]⟩
    · exact ⟨4, .inr rfl, by rw [hfour, hfirst, hstanding']⟩

end HonestNetwork

end Entangrid
