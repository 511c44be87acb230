import Entangrid.Consensus.Proof.Counters
import Entangrid.Node.Proof.ReceiptStore

/-!
# Commitments and their receipts

A commitment holds a root over the sorted hashes of its receipts and totals of three loops over them.
None of this depends on the order of the receipts, and the root determines them up to their order, where
`canonical_hash` does not collide on them.

* `commitmentFromReceiptsWithWeights_eq_loops`: the totals as the loops of the source compute them.
* `commitmentFromReceiptsWithWeights_perm`: permuted receipts have the same commitment.
* `perm_of_computeReceiptRoot_eq`: receipts with one root are permutations of each other.
* `commitments_bind_receipts`: a commitment has one bundle, up to its order.
-/

namespace Entangrid

namespace ConsensusEngine

variable {C : ConsensusEngine} {receipts receipts' : List RelayReceipt}

/-! ## The loops -/

/-- The loop of `commitment_from_receipts_with_weights`: the entries of `by_message_class` and the set
of peers. -/
def summaryLoop (receipts : List RelayReceipt) :
    (MessageClass → Option Nat) × BTreeSet ValidatorId :=
  receipts.foldl (fun (byMessageClass, peers) receipt =>
    (Function.update byMessageClass receipt.messageClass
      (some ((byMessageClass receipt.messageClass).getD 0 + 1)),
      peers.insert receipt.destinationValidatorId)) (fun _ => none, ∅)

/-- The loop of `counters_from_receipts`: the heartbeat slots, the timely deliveries and the set of
peers. -/
def countersLoop (C : ConsensusEngine) (receipts : List RelayReceipt) :
    BTreeSet Slot × Nat × BTreeSet ValidatorId :=
  receipts.foldl (fun (heartbeatSlots, timelyDeliveries, distinctPeers) receipt =>
    (if receipt.messageClass = .heartbeat then heartbeatSlots.insert receipt.slot else heartbeatSlots,
      if receipt.latencyBucketMs ≤ C.genesis.slotDurationMillis then timelyDeliveries + 1
      else timelyDeliveries,
      distinctPeers.insert receipt.destinationValidatorId)) (∅, 0, ∅)

/-- The set holds the listed values, each once. -/
structure SetOf (s : BTreeSet Nat) (xs : List Nat) : Prop where
  mem : ∀ x, x ∈ s ↔ x ∈ xs
  size : s.size = xs.dedup.length

theorem SetOf.empty : SetOf ∅ [] := ⟨by simp, rfl⟩

theorem SetOf.insert {s : BTreeSet Nat} {xs : List Nat} (h : SetOf s xs) (x : Nat) :
    SetOf (s.insert x) (xs ++ [x]) := by
  constructor
  · intro y
    rw [Std.ExtTreeSet.mem_insert, h.mem, Nat.compare_eq_eq, List.mem_append, List.mem_singleton,
      or_comm, eq_comm]
  · have hlength : (xs ++ [x]).dedup.length = (x :: xs).dedup.length :=
      (List.perm_append_singleton x xs).dedup.length_eq
    rw [Std.ExtTreeSet.size_insert, h.size, hlength]
    have hmem : s.contains x = true ↔ x ∈ xs := Std.ExtTreeSet.mem_iff_contains.symm.trans (h.mem x)
    by_cases hx : x ∈ xs
    · rw [if_pos (hmem.2 hx), List.dedup_cons_of_mem hx]
    · rw [if_neg fun hcontains => hx (hmem.1 hcontains), List.dedup_cons_of_notMem hx,
        List.length_cons]

/-- What the first loop leaves. -/
theorem summaryLoop_eq (receipts : List RelayReceipt) : (∀ c, (summaryLoop receipts).1 c =
      if receipts.countP (·.messageClass = c) = 0 then none
      else some (receipts.countP (·.messageClass = c))) ∧
    SetOf (summaryLoop receipts).2 (receipts.map (·.destinationValidatorId)) := by
  induction receipts using List.reverseRecOn with
  | nil => exact ⟨fun c => rfl, .empty⟩
  | append_singleton receipts receipt ih =>
    obtain ⟨hclasses, hpeers⟩ := ih
    have hstep : summaryLoop (receipts ++ [receipt]) =
        (Function.update (summaryLoop receipts).1 receipt.messageClass
          (some (((summaryLoop receipts).1 receipt.messageClass).getD 0 + 1)),
          (summaryLoop receipts).2.insert receipt.destinationValidatorId) := by
      simp [summaryLoop, List.foldl_append]
    rw [hstep, List.map_append]
    refine ⟨fun c => ?_, hpeers.insert _⟩
    by_cases hc : receipt.messageClass = c
    · subst hc
      have hcount : ((if receipts.countP (·.messageClass = receipt.messageClass) = 0 then none
          else some (receipts.countP (·.messageClass = receipt.messageClass))).getD 0) =
          receipts.countP (·.messageClass = receipt.messageClass) := by
        split_ifs with hzero
        · exact hzero.symm
        · rfl
      dsimp only
      rw [Function.update_self, hclasses, hcount]
      simp [List.countP_append]
    · simp [Function.update_of_ne (Ne.symm hc), hclasses, List.countP_append, hc]

/-- What the second loop leaves. -/
theorem countersLoop_eq (C : ConsensusEngine) (receipts : List RelayReceipt) : SetOf (C.countersLoop receipts).1
      ((receipts.filter (·.messageClass = .heartbeat)).map (·.slot)) ∧
    (C.countersLoop receipts).2.1 = C.timelyDeliveries receipts ∧
    SetOf (C.countersLoop receipts).2.2 (receipts.map (·.destinationValidatorId)) := by
  induction receipts using List.reverseRecOn with
  | nil => exact ⟨.empty, rfl, .empty⟩
  | append_singleton receipts receipt ih =>
    obtain ⟨hslots, htimely, hpeers⟩ := ih
    have hstep : C.countersLoop (receipts ++ [receipt]) =
        (if receipt.messageClass = .heartbeat then (C.countersLoop receipts).1.insert receipt.slot
          else (C.countersLoop receipts).1,
          if receipt.latencyBucketMs ≤ C.genesis.slotDurationMillis then
            (C.countersLoop receipts).2.1 + 1
          else (C.countersLoop receipts).2.1,
          (C.countersLoop receipts).2.2.insert receipt.destinationValidatorId) := by
      simp [countersLoop, List.foldl_append]
    rw [hstep]
    refine ⟨?_, ?_, ?_⟩
    · rw [List.filter_append, List.map_append]
      by_cases hheartbeat : receipt.messageClass = .heartbeat
      · simpa [hheartbeat] using hslots.insert receipt.slot
      · simpa [hheartbeat] using hslots
    · simp only [htimely, timelyDeliveries, List.countP_append, List.countP_singleton,
        decide_eq_true_eq]
      split_ifs <;> rfl
    · rw [List.map_append]
      exact hpeers.insert _

/-- **The commitment holds what the loops compute.** -/
theorem commitmentFromReceiptsWithWeights_eq_loops (v : ValidatorId) (epoch : Epoch)
    (failedSessions invalidReceipts : Nat) (weights : ServiceScoreWeights) :
    C.commitmentFromReceiptsWithWeights v epoch receipts failedSessions invalidReceipts weights =
      { epoch
        validatorId := v
        receiptRoot := C.computeReceiptRoot receipts
        receiptCount := receipts.length
        summary :=
          { byMessageClass := (summaryLoop receipts).1
            distinctPeers := (summaryLoop receipts).2.size
            relayScore := C.score
              { uptimeWindows := (C.countersLoop receipts).1.size
                totalWindows := max C.genesis.slotsPerEpoch 1
                timelyDeliveries := (C.countersLoop receipts).2.1
                expectedDeliveries := max C.genesis.slotsPerEpoch 1
                distinctPeers := (C.countersLoop receipts).2.2.size
                expectedPeers := max (((C.assignmentFor epoch v).map (·.relayTargets)).getD []).length 1
                failedSessions
                invalidReceipts } weights } } := by
  obtain ⟨hclasses, hsummaryPeers⟩ := summaryLoop_eq receipts
  obtain ⟨hslots, htimely, hpeers⟩ := countersLoop_eq C receipts
  rw [show (summaryLoop receipts).1 = _ from funext hclasses, hsummaryPeers.size, hslots.size, htimely,
    hpeers.size]
  rfl

/-! ## Order -/

/-- The hashes a receipt root is made of. -/
def sortedHashes (H : Hashing) (receipts : List RelayReceipt) : List HashBytes :=
  (receipts.map fun r => H.canonicalHash (.receipt r)).insertionSort (· ≤ ·)

theorem sortedHashes_perm (H : Hashing) (receipts : List RelayReceipt) :
    (sortedHashes H receipts).Perm (receipts.map fun r => H.canonicalHash (.receipt r)) :=
  List.perm_insertionSort _ _

theorem sortedHashes_eq (h : receipts.Perm receipts') (H : Hashing) :
    sortedHashes H receipts = sortedHashes H receipts' := by
  refine List.Perm.eq_of_pairwise' (List.pairwise_insertionSort _ _)
    (List.pairwise_insertionSort _ _) ?_
  exact ((sortedHashes_perm H _).trans (h.map _)).trans (sortedHashes_perm H _).symm

theorem computeReceiptRoot_perm (h : receipts.Perm receipts') :
    C.computeReceiptRoot receipts = C.computeReceiptRoot receipts' :=
  congrArg (fun hs => C.hashing.canonicalHash (.hashes hs)) (sortedHashes_eq h C.hashing)

/-- **The commitment does not depend on the order of the receipts.** -/
theorem commitmentFromReceiptsWithWeights_perm (h : receipts.Perm receipts') (v : ValidatorId)
    (epoch : Epoch) (failedSessions invalidReceipts : Nat) (weights : ServiceScoreWeights) :
    C.commitmentFromReceiptsWithWeights v epoch receipts failedSessions invalidReceipts weights =
      C.commitmentFromReceiptsWithWeights v epoch receipts' failedSessions invalidReceipts
        weights := by
  have hpeers : (receipts.map (·.destinationValidatorId)).dedup.length =
      (receipts'.map (·.destinationValidatorId)).dedup.length := ((h.map _).dedup).length_eq
  simp only [commitmentFromReceiptsWithWeights, countersFromReceipts_perm h, computeReceiptRoot_perm h,
    h.length_eq, hpeers, h.countP_eq]

/-! ## The root -/

/-- `canonical_hash` does not collide on the receipts of two lists, nor on the two lists of hashes. -/
structure TellsApart (H : Hashing) (receipts receipts' : List RelayReceipt) : Prop where
  receipt : Set.InjOn (fun r => H.canonicalHash (.receipt r)) {r | r ∈ receipts ∨ r ∈ receipts'}
  hashes : Set.InjOn (fun hs => H.canonicalHash (.hashes hs))
    {sortedHashes H receipts, sortedHashes H receipts'}

/-- Lists with the same values of a function up to order are permutations, where it does not collide. -/
theorem perm_of_map_perm {α β : Type} {f : α → β} {xs ys : List α}
    (hf : Set.InjOn f {x | x ∈ xs ∨ x ∈ ys}) (h : (xs.map f).Perm (ys.map f)) : xs.Perm ys := by
  cases xs with
  | nil =>
    rw [List.map_nil, List.nil_perm, List.map_eq_nil_iff] at h
    rw [h]
  | cons x xs =>
    have : Nonempty α := ⟨x⟩
    have hinverse := hf.leftInvOn_invFunOn
    have hback (zs : List α) (hzs : ∀ z ∈ zs, z ∈ {z | z ∈ x :: xs ∨ z ∈ ys}) :
        (zs.map f).map (Function.invFunOn f {z | z ∈ x :: xs ∨ z ∈ ys}) = zs := by
      rw [List.map_map]
      exact (List.map_congr_left fun z hz => hinverse (hzs z hz)).trans (List.map_id zs)
    have hperm := h.map (Function.invFunOn f {z | z ∈ x :: xs ∨ z ∈ ys})
    rwa [hback _ fun z hz => .inl hz, hback _ fun z hz => .inr hz] at hperm

/-- **The root determines the receipts, up to their order.** -/
theorem perm_of_computeReceiptRoot_eq (hhashing : TellsApart C.hashing receipts receipts')
    (h : C.computeReceiptRoot receipts = C.computeReceiptRoot receipts') :
    receipts.Perm receipts' := by
  have hsorted := hhashing.hashes (.inl rfl) (.inr rfl) h
  refine perm_of_map_perm hhashing.receipt ?_
  exact ((sortedHashes_perm _ _).symm.trans (.of_eq hsorted)).trans (sortedHashes_perm _ _)

end ConsensusEngine

/-! ## Bundles -/

section
variable {E : Env} {commitment : TopologyCommitment} {receipts receipts' : List RelayReceipt}
  {weights weights' : ServiceScoreWeights}

/-- An accepted bundle has the root of the commitment. -/
theorem receiptRoot_of_bundle (h : validateCommitmentBundle E commitment receipts weights = .ok ()) :
    E.consensus.computeReceiptRoot receipts = commitment.receiptRoot := by
  obtain ⟨_, -, hexpected⟩ := except_bind_ok.1 h
  rw [rejectIf_ok, Bool.not_eq_false'] at hexpected
  simp only [TopologyCommitment.eq, Bool.and_eq_true, beq_iff_eq] at hexpected
  exact hexpected.1.1.1.1.2

theorem ReceiptsSound.perm (h : ReceiptsSound E receipts) (hperm : receipts.Perm receipts') :
    ReceiptsSound E receipts' where
  valid r hr := h.valid r (hperm.mem_iff.2 hr)
  distinct := (hperm.map _).nodup_iff.1 h.distinct
  distinctEvents := (hperm.map _).nodup_iff.1 h.distinctEvents

/-- The order of an accepted bundle does not matter. -/
theorem validateCommitmentBundle_perm (hperm : receipts.Perm receipts')
    (h : validateCommitmentBundle E commitment receipts weights = .ok ()) :
    validateCommitmentBundle E commitment receipts' weights = .ok () := by
  obtain ⟨_, hreceipts, hexpected⟩ := except_bind_ok.1 h
  obtain ⟨hsnapshot, hown⟩ := validateCommitmentReceipts_ok.1 hreceipts
  have hsound := (validateSnapshotReceipts_ok.1 hsnapshot).1.perm hperm
  refine except_bind_ok.2 ⟨(), validateCommitmentReceipts_ok.2
    ⟨validateSnapshotReceipts_ok.2 ⟨hsound, by simp, by simp⟩, fun r hr => ?_⟩, ?_⟩
  · exact hown r (hperm.mem_iff.2 hr)
  · rwa [← ConsensusEngine.commitmentFromReceiptsWithWeights_perm hperm]

end

/-- **Commitments bind the multiset of receipts.** Permuted receipts have equal commitments; receipts
with one root are permutations of each other, where `canonical_hash` does not collide on them; and so
are two bundles that are accepted for one commitment, while every order of an accepted bundle is
accepted. -/
theorem commitments_bind_receipts (E : Env) :
    (∀ (v : ValidatorId) (epoch : Epoch) (failedSessions invalidReceipts : Nat)
      (weights : ServiceScoreWeights) (receipts receipts' : List RelayReceipt),
      receipts.Perm receipts' →
      E.consensus.commitmentFromReceiptsWithWeights v epoch receipts failedSessions invalidReceipts
        weights = E.consensus.commitmentFromReceiptsWithWeights v epoch receipts' failedSessions
          invalidReceipts weights) ∧
    (∀ receipts receipts' : List RelayReceipt,
      ConsensusEngine.TellsApart E.hashing receipts receipts' →
      E.consensus.computeReceiptRoot receipts = E.consensus.computeReceiptRoot receipts' →
      receipts.Perm receipts') ∧
    (∀ (commitment : TopologyCommitment) (receipts receipts' : List RelayReceipt)
      (weights weights' : ServiceScoreWeights),
      ConsensusEngine.TellsApart E.hashing receipts receipts' →
      validateCommitmentBundle E commitment receipts weights = .ok () →
      validateCommitmentBundle E commitment receipts' weights' = .ok () →
      receipts.Perm receipts') ∧
    ∀ (commitment : TopologyCommitment) (receipts receipts' : List RelayReceipt)
      (weights : ServiceScoreWeights), receipts.Perm receipts' →
      validateCommitmentBundle E commitment receipts weights = .ok () →
      validateCommitmentBundle E commitment receipts' weights = .ok () := by
  refine ⟨fun v epoch failedSessions invalidReceipts weights receipts receipts' hperm =>
      ConsensusEngine.commitmentFromReceiptsWithWeights_perm hperm v epoch failedSessions
        invalidReceipts weights,
    fun receipts receipts' hhashing hroot =>
      ConsensusEngine.perm_of_computeReceiptRoot_eq hhashing hroot,
    fun commitment receipts receipts' weights weights' hhashing h h' => ?_,
    fun commitment receipts receipts' weights hperm h => validateCommitmentBundle_perm hperm h⟩
  exact ConsensusEngine.perm_of_computeReceiptRoot_eq hhashing
    ((receiptRoot_of_bundle h).trans (receiptRoot_of_bundle h').symm)

/-- The receipt of a heartbeat of validator 1, signed by its witness. -/
def signedHeartbeat (slot : Slot) (witness : ValidatorId) : RelayReceipt :=
  let receipt := ConsensusEngine.heartbeatReceipt slot witness
  { receipt with
    signature := sampleSignature witness (receiptSigningHash rollingHashing receipt) }

def sampleBundle : List RelayReceipt := [signedHeartbeat 10 2, signedHeartbeat 11 3]

def sampleCommitment : TopologyCommitment :=
  (sampleEnv 1).consensus.commitmentFromReceiptsWithWeights 1 2 sampleBundle 0 0
    defaultServiceScoreWeights

theorem sample_bundle_tells_apart :
    ConsensusEngine.TellsApart rollingHashing sampleBundle sampleBundle.reverse where
  receipt := by
    have hne : rollingHashing.canonicalHash (.receipt (signedHeartbeat 10 2)) ≠
        rollingHashing.canonicalHash (.receipt (signedHeartbeat 11 3)) := by decide +kernel
    intro r hr r' hr' heq
    have hmem (x : RelayReceipt) (hx : x ∈ {r | r ∈ sampleBundle ∨ r ∈ sampleBundle.reverse}) :
        x = signedHeartbeat 10 2 ∨ x = signedHeartbeat 11 3 := by
      simpa [sampleBundle, or_comm] using hx
    rcases hmem r hr with rfl | rfl <;> rcases hmem r' hr' with rfl | rfl
    · rfl
    · exact absurd heq hne
    · exact absurd heq.symm hne
    · rfl
  hashes := by
    rw [ConsensusEngine.sortedHashes_eq (List.reverse_perm sampleBundle), Set.pair_eq_singleton]
    exact Set.injOn_singleton _ _

/-- The bundle is accepted in both orders, which are permutations of each other and have one
commitment. -/
theorem sample_bundle_is_bound :
    validateCommitmentBundle (sampleEnv 1) sampleCommitment sampleBundle
      defaultServiceScoreWeights = .ok () ∧
    validateCommitmentBundle (sampleEnv 1) sampleCommitment sampleBundle.reverse
      defaultServiceScoreWeights = .ok () ∧
    sampleBundle.Perm sampleBundle.reverse ∧
    (sampleEnv 1).consensus.commitmentFromReceiptsWithWeights 1 2 sampleBundle.reverse 0 0
      defaultServiceScoreWeights = sampleCommitment := by
  obtain ⟨hequal, -, hunique, horder⟩ := commitments_bind_receipts (sampleEnv 1)
  have haccepted : validateCommitmentBundle (sampleEnv 1) sampleCommitment sampleBundle
      defaultServiceScoreWeights = .ok () := by decide +kernel
  have hreversed := horder _ _ _ _ (List.reverse_perm sampleBundle).symm haccepted
  exact ⟨haccepted, hreversed, hunique _ _ _ _ _ sample_bundle_tells_apart haccepted hreversed,
    hequal _ _ _ _ _ _ _ (List.reverse_perm sampleBundle)⟩

end Entangrid
