import Entangrid.Node.Proof.Alignment
import Entangrid.Node.Proof.OneVote
import Entangrid.Node.Proof.Termination

/-!
# Two suffixes on one certificate

Nodes that stand above the same certificate on different suffixes send each other segments that
start at it. A segment is taken if its target is preferred, or if it starts at the local certificate
and its target is another one. So the preferred node gives way as well as the other.

* `adoptsSegment_iff`: when a node adopts such a segment.
* `suffixes_exchanged_iff`: when two nodes adopt each other's.
-/

namespace Entangrid

open Proc (Matches Stops Total Infallible)

variable {E : Env} {n n' : Node}

/-! ## The segments that start at a certificate -/

/-- The segment of `send_anchored_suffix_sync_to`. -/
def Node.anchoredSegment (E : Env) (n : Node) (anchor : SyncQcAnchor) :
    Except Error (Option ChainSegment) :=
  if n.localSyncView.height ≤ anchor.blockNumber then .ok none
  else do
    let snapshot ← n.syncExportSnapshot E
    .ok (buildChainSegmentFromChain snapshot (n.blocks.take n.syncExportPrefixLen) n.receipts
      E.config.featureFlags.serviceScoreWindowEpochs anchor.blockNumber anchor.blockHash
      maxIncrementalSyncBlocks)

theorem sendAnchoredSuffixSyncTo_eq (v : ValidatorId) (anchor : SyncQcAnchor) :
    sendAnchoredSuffixSyncTo E v anchor = (do
      let n ← Proc.get
      match ← NodeM.check (n.anchoredSegment E anchor) with
      | none => pure ()
      | some chain => NodeM.sendTo E v (.syncBlocks E.me chain)) := by
  funext n
  show (sendAnchoredSuffixSyncTo E v anchor).run n = Proc.run _ n
  unfold sendAnchoredSuffixSyncTo
  rw [Proc.run_get_bind, Proc.run_get_bind, Node.anchoredSegment]
  by_cases hheight : n.localSyncView.height ≤ anchor.blockNumber
  · simp only [if_pos hheight]
    rfl
  · simp only [if_neg hheight]
    cases n.syncExportSnapshot E with
    | error e => rfl
    | ok snapshot => rfl

/-- The push to a peer sends the segment, if there is one. -/
theorem run_sendAnchoredSuffixSyncTo {v : ValidatorId} {anchor : SyncQcAnchor} {chain : ChainSegment}
    (hpeer : E.config.peers.any (·.validatorId == v) = true)
    (h : n.anchoredSegment E anchor = .ok (some chain)) :
    (sendAnchoredSuffixSyncTo E v anchor).run n =
      .ok () (n.withEffect (.sendTo v (.syncBlocks E.me chain))) := by
  rw [sendAnchoredSuffixSyncTo_eq, Proc.run_get_bind, h]
  show (NodeM.sendTo E v (.syncBlocks E.me chain)).run n = _
  rw [NodeM.sendTo, if_pos hpeer]
  rfl

/-- A segment the node builds from an anchor: pushed, or sent in answer to a request. -/
def Node.SendsFrom (E : Env) (n : Node) (anchor : SyncQcAnchor) (chain : ChainSegment) : Prop :=
  n.anchoredSegment E anchor = .ok (some chain) ∨
    n.buildChainSegment E anchor.blockNumber anchor.blockHash = .ok (some chain)

/-- It starts at the anchor. -/
theorem Node.SendsFrom.base {anchor : SyncQcAnchor} {chain : ChainSegment}
    (h : n.SendsFrom E anchor chain) :
    chain.baseHeight = anchor.blockNumber ∧ chain.baseTipHash = anchor.blockHash := by
  rcases h with h | h
  · unfold Node.anchoredSegment at h
    split_ifs at h
    · cases h
    · obtain ⟨snapshot, -, h⟩ := except_bind_ok.1 h
      obtain ⟨-, hheight, htip, -⟩ := built_segment (Except.ok.inj h)
      exact ⟨hheight, htip⟩
  · obtain ⟨snapshot, -, h⟩ := except_bind_ok.1 h
    obtain ⟨built, hbuilt, rfl⟩ := Option.map_eq_some_iff.1 (Except.ok.inj h)
    obtain ⟨-, hheight, htip, -⟩ := built_segment hbuilt
    exact ⟨hheight, htip⟩

/-! ## Taking a segment -/

/-- The node takes the segment: it should, and applying it succeeds. -/
def AdoptsSegment (E : Env) (n : Node) (chain : ChainSegment) : Prop :=
  shouldAdoptChainSegment E n n.ledger.snapshot chain = true ∧
    ∃ n' bound, ∀ fuel > bound, (applyChainSegment E fuel chain).run n = .ok () n'

/-- The checks of `apply_chain_segment` on a segment laid on the chain up to a certificate. -/
def checkSegmentAbove (E : Env) (n : Node) (qc : QuorumCertificate) (chain : ChainSegment) :
    Except Error LedgerState := do
  let base := n.blocks.take qc.blockNumber
  let baseLedger ← LedgerState.replayBlocks E.hashing E.crypto E.genesis base
  let aligned ← alignChainSegmentToLocalChain base baseLedger.snapshot chain
  validateSnapshotReceipts E aligned.receipts [] []
  let ledger ← validateSnapshotBlocks E baseLedger baseLedger.snapshot.tipHash aligned.blocks
  rejectIf (ledger.snapshot != aligned.targetSnapshot) .segmentReplayMismatch
  .ok ledger

/-- The segment continues the chain up to the certificate. -/
def AppliesAbove (E : Env) (n : Node) (qc : QuorumCertificate) (chain : ChainSegment) : Prop :=
  qc.blockNumber ≤ n.blocks.length ∧ ∃ ledger, checkSegmentAbove E n qc chain = .ok ledger

instance (E : Env) (n : Node) (qc : QuorumCertificate) (chain : ChainSegment) :
    Decidable (AppliesAbove E n qc chain) :=
  decidable_of_iff (qc.blockNumber ≤ n.blocks.length ∧
    (checkSegmentAbove E n qc chain).toOption.isSome = true) <| by
    unfold AppliesAbove
    cases checkSegmentAbove E n qc chain <;> simp [Except.toOption]

/-- What decides whether a node above a certificate takes a segment that starts there: the target is
above the certificate and is not where the node stands, and the segment continues the chain up to the
certificate. -/
def TakesAbove (E : Env) (n : Node) (qc : QuorumCertificate) (chain : ChainSegment) : Prop :=
  qc.blockNumber < chain.targetSnapshot.height ∧
    chain.targetSnapshot.preference ≠ n.ledger.snapshot.preference ∧ AppliesAbove E n qc chain

instance (E : Env) (n : Node) (qc : QuorumCertificate) (chain : ChainSegment) :
    Decidable (TakesAbove E n qc chain) := inferInstanceAs (Decidable (_ ∧ _ ∧ _))

section Store

theorem persistReceipt_total (receipt : RelayReceipt) : Total (persistReceipt E receipt) :=
  .read fun _ => .ite (.pure _) <| .ite (.pure _) <| .bind (.modify _) fun _ =>
    (NodeM.store_total _).thenPure

theorem validateReceipt_total (receipt : RelayReceipt) : Total (validateReceipt E receipt) :=
  .read fun _ => .ite (.pure _) <| by
    split
    · exact .pure _
    · exact .ite (.bind (.modify _) fun _ => .throw _) (.throw _)

theorem storeReceipt_total (receipt : RelayReceipt) : Total (storeReceipt E receipt) :=
  (validateReceipt_total receipt).attempt.bind fun
    | .error _ => .pure _
    | .ok _ => persistReceipt_total receipt

theorem storeReceipt_infallible (receipt : RelayReceipt) : Infallible (storeReceipt E receipt) :=
  (Infallible.attempt _).bind fun
    | .error _ => .pure _
    | .ok _ => fun s e s' h => by
      obtain ⟨isNew, hrun⟩ := run_persistReceipt (E := E) (n := s) receipt
      rw [hrun] at h
      cases h

end Store

/-- After its checks a segment is laid on the base, and the rest of its import succeeds. -/
theorem run_applyChainSegment {chain aligned : ChainSegment} {base : List Block}
    {snapshot : StateSnapshot} {baseLedger ledger : LedgerState}
    (hbase : (syncRepairBaseForSegment E chain).run n = .ok (base, snapshot) n)
    (halign : alignChainSegmentToLocalChain base snapshot chain = .ok aligned)
    (hreceipts : validateSnapshotReceipts E aligned.receipts [] [] = .ok ())
    (hreplay : LedgerState.replayBlocks E.hashing E.crypto E.genesis base = .ok baseLedger)
    (hblocks : validateSnapshotBlocks E baseLedger snapshot.tipHash aligned.blocks = .ok ledger)
    (htarget : ledger.snapshot = aligned.targetSnapshot) :
    ∃ n' bound, ∀ fuel > bound, (applyChainSegment E fuel chain).run n = .ok () n' := by
  -- the fuel-free beginning, up to the votes
  obtain ⟨_, n₁, hstored⟩ : ∃ u n₁, (Proc.forEach aligned.receipts fun receipt => do
      let _ ← storeReceipt E receipt
      pure ()).run (n.segmented E ledger (base ++ aligned.blocks)) = .ok u n₁ :=
    Infallible.run_eq_ok (.forEach fun receipt => (storeReceipt_infallible receipt).bind fun _ =>
      .pure _) (Total.forEach (fun receipt => (storeReceipt_total receipt).thenPure) _)
  have hrun (fuel : Nat) : (applyChainSegment E fuel chain).run n =
      (importVotesOfChain E fuel aligned.proposalVotes (base ++ aligned.blocks)).run n₁ := by
    unfold applyChainSegment
    rw [Proc.run_bind_of_ok hbase]
    dsimp only [NodeM.check]
    rw [Proc.run_ofExcept_bind_of_ok halign, Proc.run_ofExcept_bind_of_ok hreceipts,
      Proc.run_ofExcept_bind_of_ok hreplay, Proc.run_ofExcept_bind_of_ok hblocks,
      Proc.run_ofExcept_bind_of_ok (a := ()) (rejectIf_ok.2 (by simpa using htarget))]
    exact Proc.run_bind_of_ok hstored
  have hmatches {fuel : Nat} (h : n₁.uncertifiedHashes.card < fuel) :=
    importVotesOfChain_matches (E := E) aligned.proposalVotes (base ++ aligned.blocks)
      (Nat.lt_succ_self _) h
  obtain ⟨_, n', hvotes⟩ := (importVotesOfChain_infallible _ _ _).run_eq_ok
    ⟨rfl, (hmatches (Nat.lt_succ_self _)).2⟩
  refine ⟨n', n₁.uncertifiedHashes.card, fun fuel h => ?_⟩
  rw [hrun, ← (hmatches h).1, hvotes]

/-- The preferred of two snapshots is at least as high, and another one. -/
theorem height_of_shouldAdoptSnapshot {locally remote : StateSnapshot}
    (h : shouldAdoptSnapshot locally remote = true) :
    locally.height ≤ remote.height ∧ remote.preference ≠ locally.preference := by
  have hgt : compare remote.preference locally.preference = .gt := by
    simpa [shouldAdoptSnapshot, SyncPreference.gt] using h
  have hthen : compare remote.preference locally.preference =
      (compare remote.height locally.height).then ((compare remote.lastSlot locally.lastSlot).then
        (compare remote.tipHash locally.tipHash)) := rfl
  constructor
  · rw [hthen, Ordering.then_eq_gt, Nat.compare_eq_gt, Nat.compare_eq_eq] at hgt
    omega
  · intro heq
    rw [hthen] at hgt
    simp only [StateSnapshot.preference, Prod.mk.injEq] at heq
    simp [heq.1, heq.2.1, heq.2.2] at hgt

section Above

variable {qc : QuorumCertificate} {chain : ChainSegment} (hv2 : E.v2 = true)
  (hqc : n.highestLocalQc = some qc) (habove : qc.blockNumber < n.ledger.snapshot.height)
  (hbase : chain.baseHeight = qc.blockNumber ∧ chain.baseTipHash = qc.blockHash)
include hv2 hqc habove hbase

/-- A segment that starts at the certificate is laid on the chain up to it. -/
theorem run_syncRepairBase_above : (syncRepairBaseForSegment E chain).run n = (do
    let base ← slicePrefix n.blocks qc.blockNumber
    let ledger ← NodeM.check (LedgerState.replayBlocks E.hashing E.crypto E.genesis base)
    pure (base, ledger.snapshot) : NodeM _).run n := by
  unfold syncRepairBaseForSegment
  rw [Proc.run_get_bind]
  simp only [hv2, if_true, hqc, habove, hbase, and_self]

/-- Above a certificate, every other target is taken. -/
theorem shouldAdoptChainSegment_above :
    shouldAdoptChainSegment E n n.ledger.snapshot chain = true ↔
      qc.blockNumber < chain.targetSnapshot.height ∧
        chain.targetSnapshot.preference ≠ n.ledger.snapshot.preference := by
  unfold shouldAdoptChainSegment
  simp only [hv2, hqc, habove, hbase, Bool.not_true, Bool.false_eq_true, if_false, decide_true,
    beq_self_eq_true, Bool.true_and, ite_eq_left_iff, Bool.and_eq_true, decide_eq_true_eq,
    bne_iff_ne, Bool.not_eq_true]
  constructor
  · intro h
    by_cases hpreferred : shouldAdoptSnapshot n.ledger.snapshot chain.targetSnapshot = true
    · obtain ⟨hheight, hne⟩ := height_of_shouldAdoptSnapshot hpreferred
      exact ⟨habove.trans_le hheight, hne⟩
    · exact h (by simpa using hpreferred)
  · exact fun h _ => h

theorem applyChainSegment_above :
    (∃ n' bound, ∀ fuel > bound, (applyChainSegment E fuel chain).run n = .ok () n') ↔
      AppliesAbove E n qc chain := by
  constructor
  · rintro ⟨n', bound, hrun⟩
    have h := hrun (bound + 1) (Nat.lt_succ_self _)
    unfold applyChainSegment at h
    obtain ⟨⟨base, snapshot⟩, n₁, hrepair, h⟩ := Proc.run_bind_eq_ok h
    rw [run_syncRepairBase_above hv2 hqc habove hbase, slicePrefix] at hrepair
    split_ifs at hrepair with hlen
    · obtain ⟨baseLedger, hreplay, hrepair⟩ := Proc.ofExcept_bind_eq_ok hrepair
      cases hrepair
      obtain ⟨aligned, halign, h⟩ := Proc.ofExcept_bind_eq_ok h
      obtain ⟨_, hreceipts, h⟩ := Proc.ofExcept_bind_eq_ok h
      obtain ⟨baseLedger', hreplay', h⟩ := Proc.ofExcept_bind_eq_ok h
      obtain rfl : baseLedger = baseLedger' := Except.ok.inj (hreplay.symm.trans hreplay')
      obtain ⟨ledger, hblocks, h⟩ := Proc.ofExcept_bind_eq_ok h
      obtain ⟨_, htarget, -⟩ := Proc.ofExcept_bind_eq_ok h
      refine ⟨hlen, ledger, ?_⟩
      simp [checkSegmentAbove, hreplay, halign, hreceipts, hblocks, htarget, except_bind_ok]
    · cases hrepair
  · rintro ⟨hlen, ledger, hchecks⟩
    unfold checkSegmentAbove at hchecks
    obtain ⟨baseLedger, hreplay, hchecks⟩ := except_bind_ok.1 hchecks
    obtain ⟨aligned, halign, hchecks⟩ := except_bind_ok.1 hchecks
    obtain ⟨_, hreceipts, hchecks⟩ := except_bind_ok.1 hchecks
    obtain ⟨ledger', hblocks, hchecks⟩ := except_bind_ok.1 hchecks
    obtain ⟨_, htarget, -⟩ := except_bind_ok.1 hchecks
    refine run_applyChainSegment ?_ halign hreceipts hreplay hblocks
      (by simpa using rejectIf_ok.1 htarget)
    rw [run_syncRepairBase_above hv2 hqc habove hbase, slicePrefix, if_pos hlen]
    exact Proc.run_ofExcept_bind_of_ok hreplay

end Above

theorem adoptsSegment_iff {qc : QuorumCertificate} {chain : ChainSegment} (hv2 : E.v2 = true)
    (hqc : n.highestLocalQc = some qc) (habove : qc.blockNumber < n.ledger.snapshot.height)
    (hbase : chain.baseHeight = qc.blockNumber ∧ chain.baseTipHash = qc.blockHash) :
    AdoptsSegment E n chain ↔ TakesAbove E n qc chain := by
  unfold AdoptsSegment TakesAbove
  rw [shouldAdoptChainSegment_above hv2 hqc habove hbase,
    applyChainSegment_above hv2 hqc habove hbase, and_assoc]

/-! ## Two nodes -/

/-- Of two snapshots at most one is preferred to the other. -/
theorem shouldAdoptSnapshot_asymm {s s' : StateSnapshot} (h : shouldAdoptSnapshot s s' = true) :
    shouldAdoptSnapshot s' s = false := by
  have hgt : compare s'.preference s.preference = .gt := by
    simpa [shouldAdoptSnapshot, SyncPreference.gt] using h
  have hlt : compare s.preference s'.preference = .lt := Std.OrientedCmp.gt_iff_lt.1 hgt
  simp [shouldAdoptSnapshot, SyncPreference.gt, hlt]

/-- **Two suffixes on one certificate change places.** Two nodes stand above the same certificate and
each builds a segment from it. At most one of them prefers the other's tip, but both adopt the other's
segment as soon as each can take it. -/
theorem suffixes_exchanged_iff (Ea Eb : Env) (a b : Node) (qca qcb : QuorumCertificate)
    (ha : Ea.v2 = true) (hb : Eb.v2 = true) (hqca : a.highestLocalQc = some qca)
    (hqcb : b.highestLocalQc = some qcb) (hnumber : qca.blockNumber = qcb.blockNumber)
    (hhash : qca.blockHash = qcb.blockHash) (haboveA : qca.blockNumber < a.ledger.snapshot.height)
    (haboveB : qcb.blockNumber < b.ledger.snapshot.height) (fromA fromB : ChainSegment)
    (hfromA : a.SendsFrom Ea ⟨qca.blockHash, qca.blockNumber⟩ fromA)
    (hfromB : b.SendsFrom Eb ⟨qcb.blockHash, qcb.blockNumber⟩ fromB) :
    ¬(shouldAdoptSnapshot a.ledger.snapshot b.ledger.snapshot = true ∧
      shouldAdoptSnapshot b.ledger.snapshot a.ledger.snapshot = true) ∧
    ((AdoptsSegment Ea a fromB ∧ AdoptsSegment Eb b fromA) ↔
      TakesAbove Ea a qca fromB ∧ TakesAbove Eb b qcb fromA) := by
  refine ⟨fun ⟨hab, hba⟩ => ?_, ?_⟩
  · rw [shouldAdoptSnapshot_asymm hab] at hba
    cases hba
  · rw [adoptsSegment_iff ha hqca haboveA (by simpa [hnumber, hhash] using hfromB.base),
      adoptsSegment_iff hb hqcb haboveB (by simpa [hnumber, hhash] using hfromA.base)]

/-! ## A fork above the first block

Node 1 certifies the first block when it has the second block on it, node 2 when it has another one. -/

/-- The second block of slot 2. -/
def lateBlock : Block := emptyBlock 2 firstBlock.blockHash 2

/-- The first block, a block on it, and the votes that certify the first. -/
def forkEvents (other : ValidatorId) (child : Block) : List Event :=
  [.received 2 (.blockProposal firstBlock), .received 2 (.blockProposal child),
    .received other (.proposalVote (signedProposalVote other firstBlock)),
    .received 3 (.proposalVote (signedProposalVote 3 firstBlock))]

def firstQc : QuorumCertificate := certificateOf firstBlock [1, 2, 3]

def firstAnchor : SyncQcAnchor := ⟨firstQc.blockHash, firstQc.blockNumber⟩

/-- The state a fresh node comes to, and the segment it builds from the first block. -/
def forkedNode (E : Env) (events : List Event) : Option (Node × ChainSegment) := do
  let n ← runEvents E 8 events (.fresh E (some 2))
  let chain ← (n.anchoredSegment E firstAnchor).toOption.join
  some (n, chain)

theorem forkedNode_eq_some {events : List Event} {chain : ChainSegment}
    (h : forkedNode E events = some (n, chain)) :
    Reachable E AnyEvent n ∧ n.anchoredSegment E firstAnchor = .ok (some chain) := by
  obtain ⟨n', hrun, h⟩ := Option.bind_eq_some_iff.1 h
  obtain ⟨chain', hchain, h⟩ := Option.bind_eq_some_iff.1 h
  cases h
  refine ⟨.runEvents (.fresh _) (fun _ _ _ => trivial) hrun, ?_⟩
  cases hseg : n.anchoredSegment E firstAnchor with
  | error e => simp [hseg, Except.toOption] at hchain
  | ok built => simpa [hseg, Except.toOption] using hchain

/-- A node stands above the first block and can take a segment. -/
def forkFacts (E : Env) (n : Node) (chain : ChainSegment) : Bool :=
  n.highestLocalQc == some firstQc && decide (firstQc.blockNumber < n.ledger.snapshot.height) &&
    decide (TakesAbove E n firstQc chain)

theorem fork_facts : (do
    let (a, fromA) ← forkedNode (sampleEnv 1) (forkEvents 2 secondBlock)
    let (b, fromB) ← forkedNode (sampleEnv 2) (forkEvents 1 lateBlock)
    some (forkFacts (sampleEnv 1) a fromB, forkFacts (sampleEnv 2) b fromA,
      decide (a.ledger.snapshot.tipHash ≠ b.ledger.snapshot.tipHash))) =
    some (true, true, true) := by
  decide +kernel

/-- A node that stands above the first block, and segments it sends and can take. -/
structure Forked (E : Env) (n : Node) (own other : ChainSegment) : Prop where
  reachable : Reachable E AnyEvent n
  certified : n.highestLocalQc = some firstQc
  above : firstQc.blockNumber < n.ledger.snapshot.height
  segment : n.anchoredSegment E firstAnchor = .ok (some own)
  takes : TakesAbove E n firstQc other

theorem Forked.sends {own other : ChainSegment} (h : Forked E n own other) :
    n.SendsFrom E firstAnchor own :=
  .inl h.segment

theorem Forked.of_facts {events : List Event} {own other : ChainSegment}
    (h : forkedNode E events = some (n, own)) (hfacts : forkFacts E n other = true) :
    Forked E n own other := by
  simp only [forkFacts, Bool.and_eq_true, beq_iff_eq, decide_eq_true_eq] at hfacts
  obtain ⟨hreachable, hsegment⟩ := forkedNode_eq_some h
  exact ⟨hreachable, hfacts.1.1, hfacts.1.2, hsegment, hfacts.2⟩

theorem forked_nodes : ∃ a b fromA fromB, Forked (sampleEnv 1) a fromA fromB ∧
    Forked (sampleEnv 2) b fromB fromA ∧ a.ledger.snapshot.tipHash ≠ b.ledger.snapshot.tipHash := by
  obtain ⟨⟨a, fromA⟩, hA, h⟩ := Option.bind_eq_some_iff.1 fork_facts
  obtain ⟨⟨b, fromB⟩, hB, h⟩ := Option.bind_eq_some_iff.1 h
  simp only [Option.some.injEq, Prod.mk.injEq, decide_eq_true_eq] at h
  exact ⟨a, b, fromA, fromB, .of_facts hA h.1, .of_facts hB h.2.1, h.2.2⟩

/-- The two nodes of the fork push their suffixes to each other, and each takes what it is sent. -/
theorem forked_nodes_exchange : ∃ a b fromA fromB,
    (sendAnchoredSuffixSyncTo (sampleEnv 1) 2 firstAnchor).run a =
      .ok () (a.withEffect (.sendTo 2 (.syncBlocks 1 fromA))) ∧
    (sendAnchoredSuffixSyncTo (sampleEnv 2) 1 firstAnchor).run b =
      .ok () (b.withEffect (.sendTo 1 (.syncBlocks 2 fromB))) ∧
    AdoptsSegment (sampleEnv 1) a fromB ∧ AdoptsSegment (sampleEnv 2) b fromA := by
  obtain ⟨a, b, fromA, fromB, ha, hb, -⟩ := forked_nodes
  refine ⟨a, b, fromA, fromB, run_sendAnchoredSuffixSyncTo rfl ha.segment,
    run_sendAnchoredSuffixSyncTo rfl hb.segment, ?_⟩
  exact (suffixes_exchanged_iff (sampleEnv 1) (sampleEnv 2) a b firstQc firstQc
    rfl rfl ha.certified hb.certified rfl rfl ha.above hb.above fromA fromB ha.sends hb.sends).2.2
    ⟨ha.takes, hb.takes⟩

/-- Two nodes with the same highest certificate, on different blocks above it, both give way. -/
theorem both_forked_nodes_give_way : ∃ a b qc fromA fromB,
    Reachable (sampleEnv 1) AnyEvent a ∧ Reachable (sampleEnv 2) AnyEvent b ∧
    a.highestLocalQc = some qc ∧ b.highestLocalQc = some qc ∧
    a.ledger.snapshot.tipHash ≠ b.ledger.snapshot.tipHash ∧
    a.SendsFrom (sampleEnv 1) ⟨qc.blockHash, qc.blockNumber⟩ fromA ∧
    b.SendsFrom (sampleEnv 2) ⟨qc.blockHash, qc.blockNumber⟩ fromB ∧
    AdoptsSegment (sampleEnv 1) a fromB ∧ AdoptsSegment (sampleEnv 2) b fromA := by
  obtain ⟨a, b, fromA, fromB, ha, hb, htips⟩ := forked_nodes
  exact ⟨a, b, firstQc, fromA, fromB, ha.reachable, hb.reachable, ha.certified, hb.certified, htips,
    ha.sends, hb.sends, (adoptsSegment_iff rfl ha.certified ha.above hb.sends.base).2 ha.takes,
    (adoptsSegment_iff rfl hb.certified hb.above ha.sends.base).2 hb.takes⟩

end Entangrid
