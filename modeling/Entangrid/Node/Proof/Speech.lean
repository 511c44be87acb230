import Entangrid.Node.Proof.Agreement
import Entangrid.Node.Proof.Conduct

/-!
# Messages that pass everywhere

A node speaks in its own name and hands on only what it checked. So the blocks, votes, certificates,
receipts, attestations, aggregates and transactions a node has sent pass the checks that any other node
makes before it looks at its own state. Of the chains in sync messages this is not so.

* `Reachable.writes`: one event as a chain of writes, from a reachable state.
* `messages_pass_everywhere`: every message a node ever sent is vouched for at every other node.
-/

namespace Entangrid

open Relation (ReflTransGen)

variable {E E' : Env} {O : Occasion} {n n' : Node}

namespace Node

/-- The messages handed to the network, for one peer or for all. -/
def sent (n : Node) : List ProtocolMessage :=
  n.effects.filterMap fun
    | .broadcast message => some message
    | .sendTo _ message => some message
    | _ => none

theorem mem_sent {message : ProtocolMessage} : message ∈ n.sent ↔
    .broadcast message ∈ n.effects ∨ ∃ peer, .sendTo peer message ∈ n.effects := by
  simp only [sent, List.mem_filterMap]
  constructor
  · intro ⟨e, he, h⟩
    cases e with
    | broadcast m =>
      cases h
      exact .inl he
    | sendTo peer m =>
      cases h
      exact .inr ⟨peer, he⟩
    | _ => cases h
  · rintro (h | ⟨peer, h⟩)
    · exact ⟨_, h, rfl⟩
    · exact ⟨_, h, rfl⟩

/-- The heartbeats among them. -/
def beats (n : Node) : List HeartbeatPulse :=
  n.effects.filterMap fun
    | .broadcast (.heartbeatPulse pulse) => some pulse
    | _ => none

theorem mem_beats {pulse : HeartbeatPulse} :
    pulse ∈ n.beats ↔ .broadcast (.heartbeatPulse pulse) ∈ n.effects := by
  simp only [beats, List.mem_filterMap]
  refine ⟨fun ⟨e, he, h⟩ => ?_, fun h => ⟨_, h, rfl⟩⟩
  split at h <;> simp_all

end Node

/-! ## What is vouched for -/

/-- Votes for one block, correctly signed by enough different validators. -/
structure CertificateSound (E : Env) (qc : QuorumCertificate) : Prop where
  wellFormed : qc.isWellFormed E.hashing = true
  distinct : (qc.votes.map (·.validatorId)).Nodup
  enough : quorumCertificateThreshold E.genesis.validators.length ≤ qc.votes.length
  signed : ∀ vote ∈ qc.votes, validateProposalVoteSignatureAndSigner E vote = .ok ()

/-- The message names `sender` where it names its author. A transaction, block, vote, certificate, receipt,
attestation or aggregate passes the checks made in the surroundings `E`; of the chain in a sync message
nothing is said. -/
def Vouched (E : Env) (sender : ValidatorId) : ProtocolMessage → Prop
  | .transactionBroadcast tx => ∃ ledger, checkTransaction E ledger tx = .ok ()
  | .blockProposal block => validateReceivedBlock E block = .ok ()
  | .proposalVote vote => vote.validatorId = sender ∧
      validateProposalVoteSignatureAndSigner E vote = .ok () ∧
      validateHybridProposalVotePolicy E vote = .ok ()
  | .quorumCertificate qc => CertificateSound E qc
  | .syncStatus v .. | .syncRequest v .. | .syncResponse v _ | .syncBlocks v _ => v = sender
  | .certifiedSyncRequest request => request.requesterId = sender
  | .certifiedSyncResponse response => response.responder = sender
  | .heartbeatPulse pulse => pulse.sourceValidatorId = sender
  | .relayReceipt receipt => receiptVerdict E receipt = .ok ()
  | .serviceAttestation a =>
    a.committeeMemberId = sender ∧ validateServiceAttestation E a = .ok ()
  | .serviceAggregate a => validateServiceAggregate E a = .ok ()
  | .receiptFetch v _ w => v = sender ∧ w = sender
  | .receiptResponse v _ _ receipts => v = sender ∧ ∀ receipt ∈ receipts, ReceiptValid E receipt

/-! ## Other nodes check alike -/

section Network
variable (h : E.SameNetwork E') (hflags : E'.config.featureFlags = E.config.featureFlags)
include h

namespace Env.SameNetwork

theorem validateSigner_eq (vote : ProposalVote) :
    validateProposalVoteSignatureAndSigner E' vote = validateProposalVoteSignatureAndSigner E vote := by
  simp only [validateProposalVoteSignatureAndSigner, h.genesis, h.hashing, h.verifySignature_eq]

theorem receiptValid {receipt : RelayReceipt} (hr : ReceiptValid E receipt) :
    ReceiptValid E' receipt where
  signed := by
    rw [h.verify, h.hashing]
    exact hr.signed
  assigned := by
    rw [h.consensus_eq]
    exact hr.assigned

theorem certificateSound {qc : QuorumCertificate} (hqc : CertificateSound E qc) :
    CertificateSound E' qc where
  wellFormed := by
    rw [h.hashing]
    exact hqc.wellFormed
  distinct := hqc.distinct
  enough := by
    rw [h.genesis]
    exact hqc.enough
  signed vote hvote := by
    rw [h.validateSigner_eq]
    exact hqc.signed vote hvote

include hflags

theorem checkTransaction_eq (ledger : LedgerState) (tx : SignedTransaction) :
    checkTransaction E' ledger tx = checkTransaction E ledger tx := by
  simp only [checkTransaction, validateHybridTransactionPolicy, requireHybrid, hflags,
    LedgerState.validateTx, h.hashing, h.verify]

theorem receiptVerdict_eq (receipt : RelayReceipt) :
    receiptVerdict E' receipt = receiptVerdict E receipt := by
  simp only [receiptVerdict, validateHybridReceiptPolicy, requireHybrid, hflags, h.verify, h.hashing,
    h.consensus_eq]

theorem validateServiceAttestation_eq :
    validateServiceAttestation E' = validateServiceAttestation E := by
  funext a
  simp only [validateServiceAttestation, validateHybridServiceAttestationPolicy, requireHybrid, hflags,
    h.consensus_eq, h.verifySignature_eq, h.hashing]

/-- What is vouched for at one node is vouched for at the other. -/
theorem vouched {sender : ValidatorId} {message : ProtocolMessage} (hm : Vouched E sender message) :
    Vouched E' sender message := by
  cases message with
  | transactionBroadcast tx =>
    obtain ⟨ledger, htx⟩ := hm
    exact ⟨ledger, by rw [h.checkTransaction_eq hflags, htx]⟩
  | blockProposal block =>
    show validateReceivedBlock E' block = .ok ()
    rw [h.validateReceivedBlock_eq hflags]
    exact hm
  | proposalVote vote =>
    obtain ⟨hname, hsigner, hpolicy⟩ := hm
    refine ⟨hname, by rw [h.validateSigner_eq, hsigner], ?_⟩
    rw [← hpolicy]
    simp only [validateHybridProposalVotePolicy, requireHybrid, hflags]
  | quorumCertificate qc => exact h.certificateSound hm
  | relayReceipt receipt =>
    show receiptVerdict E' receipt = .ok ()
    rw [h.receiptVerdict_eq hflags]
    exact hm
  | serviceAttestation a =>
    refine ⟨hm.1, ?_⟩
    rw [h.validateServiceAttestation_eq hflags]
    exact hm.2
  | serviceAggregate a =>
    show validateServiceAggregate E' a = .ok ()
    unfold validateServiceAggregate
    rw [h.validateServiceAttestation_eq hflags, h.consensus_eq]
    exact hm
  | receiptResponse => exact ⟨hm.1, fun receipt hr => h.receiptValid (hm.2 receipt hr)⟩
  | _ => exact hm

end Env.SameNetwork

end Network

/-! ## One event -/

/-- A message said along some writes: new ones were right when they were said. -/
theorem sent_of_chain (h : ReflTransGen (Write E O) n n') {message : ProtocolMessage}
    (hm : message ∈ n'.sent) : message ∈ n.sent ∨
      (∃ m, m.effects <:+ n'.effects ∧ MaySay E O m message) ∨
      ∃ pulse, message = .heartbeatPulse pulse ∧ pulse.sourceValidatorId = E.me := by
  induction h with
  | refl => exact .inl hm
  | @tail s s' hchain hlast ih =>
    have hsuffix := hlast.effects_suffix
    have hold (hs : message ∈ s.sent) : message ∈ n.sent ∨
        (∃ m, m.effects <:+ s'.effects ∧ MaySay E O m message) ∨
        ∃ pulse, message = .heartbeatPulse pulse ∧ pulse.sourceValidatorId = E.me := by
      rcases ih hs with h | ⟨m, hm, hmay⟩ | h
      · exact .inl h
      · exact .inr (.inl ⟨m, hm.trans hsuffix, hmay⟩)
      · exact .inr (.inr h)
    cases hlast with
    | quiet h =>
      have heffects : s'.effects = s.effects := congrArg Watched.effects h.watched
      exact hold (by rwa [Node.sent, ← heffects])
    | readClock | pending | attest | blame | passSlot => exact hold hm
    | note effect hnote =>
      refine hold (Node.mem_sent.2 ?_)
      rcases Node.mem_sent.1 hm with hm | ⟨peer, hm⟩
      · rcases List.mem_cons.1 hm with heq | hm
        · subst heq
          cases hnote
        · exact .inl hm
      · rcases List.mem_cons.1 hm with heq | hm
        · subst heq
          cases hnote
        · exact .inr ⟨peer, hm⟩
    | broadcast said hmay =>
      rcases List.mem_cons.1 (show message ∈ said :: s.sent from hm) with heq | hm
      · exact .inr (.inl ⟨s, hsuffix, heq ▸ hmay⟩)
      · exact hold hm
    | sendTo peer said hmay =>
      rcases List.mem_cons.1 (show message ∈ said :: s.sent from hm) with heq | hm
      · exact .inr (.inl ⟨s, hsuffix, heq ▸ hmay⟩)
      · exact hold hm
    | propose => exact hold hm
    | beat pulse _ _ hsource =>
      rcases List.mem_cons.1 (show message ∈ .heartbeatPulse pulse :: s.sent from hm) with heq | hm
      · exact .inr (.inr ⟨pulse, heq, hsource⟩)
      · exact hold hm

section Runs
variable {P : Node → Event → Prop}

/-- The blocks a node has are those of any event that it could handle next. -/
theorem inOrder_of_pendingValid (hn : n.PendingValid E) (event : Event) :
    n.InOrder E (.of E n event) where
  pending := hn
  known block hb := by
    cases event with
    | received sender payload => exact .inl (.inl hb)
    | _ => exact .inl hb

theorem Reachable.pendingValid (hn : Reachable E P n) : n.PendingValid E := by
  induction hn with
  | fresh slot => simp [Node.PendingValid, Node.fresh]
  | handle fuel event _ _ hrun ih =>
    have hstart := inOrder_of_pendingValid ih event
    exact (inOrder_of_chain ((handleEvent_writes fuel event).of_state? hrun hstart) hstart).pending

theorem Reachable.inOrder (hn : Reachable E P n) (event : Event) : n.InOrder E (.of E n event) :=
  inOrder_of_pendingValid hn.pendingValid event

/-- An event handled in a reachable state is a chain of writes. -/
theorem Reachable.writes (hn : Reachable E P n) {fuel : Nat} {event : Event}
    (hrun : ((handleEvent E fuel event).run n).state? = some n') :
    ReflTransGen (Write E (.of E n event)) n n' :=
  (handleEvent_writes fuel event).of_state? hrun (hn.inOrder event)

end Runs

/-! ## Certificates -/

theorem certificateSound_of_assembledQc (hv : VoteInv E n) {qc : QuorumCertificate}
    (h : assembledQc E n qc.blockHash = some qc) (hwf : qc.isWellFormed E.hashing = true) :
    CertificateSound E qc := by
  obtain ⟨block, byValidator, -, hvotes, hsize, hqc⟩ := assembledQc_eq_some h
  have hfound {v : ValidatorId} {x : ProposalVote} (hx : byValidator[v]? = some x) :
      n.Found qc.blockHash v x := .inl (VoteMap.lookup_eq_some_iff.2 ⟨byValidator, hvotes, hx⟩)
  have hvotes' : qc.votes = byValidator.toList.map (·.2) := by rw [hqc]
  have hmem {v : ValidatorId} {x : ProposalVote} (hx : (v, x) ∈ byValidator.toList) :
      byValidator[v]? = some x := Std.ExtTreeMap.mem_toList_iff_getElem?_eq_some.1 hx
  refine ⟨hwf, ?_, ?_, fun vote hvote => ?_⟩
  · have hids : qc.votes.map (·.validatorId) = byValidator.keys := by
      rw [hvotes', List.map_map, ← Std.ExtTreeMap.map_fst_toList_eq_keys]
      exact List.map_congr_left fun ⟨v, x⟩ hx => (hv.keyed _ _ _ (hfound (hmem hx))).2
    rw [hids]
    exact Std.ExtTreeMap.nodup_keys
  · rw [hvotes', List.length_map, Std.ExtTreeMap.length_toList]
    exact hsize
  · rw [hvotes'] at hvote
    obtain ⟨⟨v, x⟩, hx, rfl⟩ := List.mem_map.1 hvote
    exact hv.signer _ _ _ (hfound (hmem hx))

theorem Reachable.builtQcs_sound (hn : Reachable E AnyEvent n) {qc : QuorumCertificate}
    (hqc : qc ∈ n.builtQcs) : CertificateSound E qc := by
  have hinv : VoteInv E n ∧ ∀ qc ∈ n.builtQcs, CertificateSound E qc := by
    refine hn.invariant (I := fun n => VoteInv E n ∧ ∀ qc ∈ n.builtQcs, CertificateSound E qc)
      admits_any (fun slot => ⟨.fresh slot, by simp [Node.builtQcs, Node.fresh]⟩) ?_
    intro m m' _ h hstep
    obtain ⟨hv, hbuilt⟩ := h
    refine ⟨hv.step hstep, fun qc hqc => ?_⟩
    rcases hstep.effect_new (Node.mem_builtQcs.1 hqc) (by simp) (by simp) with hold | hguard
    · exact hbuilt qc (Node.mem_builtQcs.2 hold)
    · exact certificateSound_of_assembledQc hv hguard.1 hguard.2
  exact hinv.2 qc hqc

/-! ## Runs -/

theorem Reachable.sent_vouched (hn : Reachable E AnyEvent n) {message : ProtocolMessage}
    (hm : message ∈ n.sent) : Vouched E E.me message := by
  induction hn with
  | fresh slot => simp [Node.sent, Node.fresh] at hm
  | @handle n n' fuel event hn hP hrun ih =>
    rcases sent_of_chain (hn.writes hrun) hm with hold | ⟨m, hsuffix, hmay, -⟩ | ⟨pulse, rfl, hsource⟩
    · exact ih hold
    · have hn' : Reachable E AnyEvent n' := .handle fuel event hn hP hrun
      cases message with
      | proposalVote vote =>
        obtain ⟨⟨block, hbuilt⟩, hvalid⟩ := hmay
        refine ⟨?_, hvalid⟩
        obtain ⟨signature, -, hvote⟩ := except_bind_ok.1 hbuilt
        rw [← Except.ok.inj hvote]
      | quorumCertificate qc => exact hn'.builtQcs_sound (Node.mem_builtQcs.2 (hsuffix.mem hmay))
      | heartbeatPulse => exact hmay.elim
      | receiptResponse v epoch w receipts =>
        refine ⟨hmay.1, fun receipt hr => ?_⟩
        have hheld := hmay.2 receipt hr
        cases event with
        | received sender payload => exact hn.receiptInv.book.valid receipt hheld
        | _ => exact hheld.elim
      | _ => exact hmay
    · exact hsource

/-- **Messages pass everywhere.** Whatever a node has ever sent, at any state of any run, names the node
where it names its author, and the blocks, votes, certificates, receipts, attestations, aggregates and
transactions pass the checks of every node of its network with the same flags. -/
theorem messages_pass_everywhere (E E' : Env) (hnetwork : E.SameNetwork E')
    (hflags : E'.config.featureFlags = E.config.featureFlags) (n : Node)
    (hn : Reachable E AnyEvent n) (message : ProtocolMessage) (hm : message ∈ n.sent) :
    Vouched E' E.me message :=
  hnetwork.vouched hflags (hn.sent_vouched hm)

/-- Validator 4 proposes a block, votes for it and beats; validator 1 can rely on all three. -/
theorem first_messages_pass : ∃ n, Reachable (sampleEnv 4) AnyEvent n ∧ n.sent.length = 3 ∧
    ∀ message ∈ n.sent, Vouched (sampleEnv 1) (sampleEnv 4).me message := by
  obtain ⟨n, hn, hlength⟩ := Reachable.of_map (P := AnyEvent) 8 [.slotTick] none
    (fun n => n.sent.length) 3 (fun _ _ _ => trivial)
    (by decide +kernel : (runEvents (sampleEnv 4) 8 _ _).map _ = _)
  exact ⟨n, hn, hlength, fun message hm => messages_pass_everywhere (sampleEnv 4) (sampleEnv 1)
    (sampleEnv_sameNetwork 4 1) rfl n hn message hm⟩

end Entangrid
