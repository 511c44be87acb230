import Entangrid.Consensus
import Entangrid.Sample
import Mathlib.Data.List.Dedup
import Mathlib.Data.List.Perm.Subperm

/-!
# Service counters

The counters of a validator count distinct things: the slots in which it was heard and the peers it
served. Valid receipts name slots of one epoch and assigned targets, so each count stays within the
denominator it is divided by, and none depends on the order of the receipts.

* `length_heartbeatSlots_le`: an epoch has no more heartbeat slots than slots.
* `length_destinations_le`: no more destinations than relay targets.
* `counters_within_denominators`: both ways of counting, with any repetitions and in any order.
* `countersForValidatorFromObserver_inRange`: what an observer counts is in range (`InRange`).
* `field_aggregateServiceCounters`: the sums of attested counters, which wrap.
-/

namespace Entangrid

/-! ## Sums -/

/-- One term of the sum of counters. -/
def ServiceCounters.wrappingAdd (c d : ServiceCounters) : ServiceCounters where
  uptimeWindows := u64Add c.uptimeWindows d.uptimeWindows
  totalWindows := u64Add c.totalWindows d.totalWindows
  timelyDeliveries := u64Add c.timelyDeliveries d.timelyDeliveries
  expectedDeliveries := u64Add c.expectedDeliveries d.expectedDeliveries
  distinctPeers := u64Add c.distinctPeers d.distinctPeers
  expectedPeers := u64Add c.expectedPeers d.expectedPeers
  failedSessions := u64Add c.failedSessions d.failedSessions
  invalidReceipts := u64Add c.invalidReceipts d.invalidReceipts

theorem aggregateServiceCounters_eq (l : List ServiceAttestation) :
    aggregateServiceCounters l = (l.map (·.counters)).foldl ServiceCounters.wrappingAdd {} := by
  rw [List.foldl_map]
  rfl

/-- The eight counters. -/
def ServiceCounters.fields : List (ServiceCounters → Nat) :=
  [uptimeWindows, totalWindows, timelyDeliveries, expectedDeliveries, distinctPeers, expectedPeers,
    failedSessions, invalidReceipts]

theorem ServiceCounters.field_wrappingAdd {f : ServiceCounters → Nat} (hf : f ∈ fields)
    (c d : ServiceCounters) : f (c.wrappingAdd d) = u64Add (f c) (f d) := by
  simp only [fields, List.mem_cons, List.not_mem_nil, or_false] at hf
  rcases hf with rfl | rfl | rfl | rfl | rfl | rfl | rfl | rfl <;> rfl

theorem ServiceCounters.field_default {f : ServiceCounters → Nat} (hf : f ∈ fields) : f {} = 0 := by
  simp only [fields, List.mem_cons, List.not_mem_nil, or_false] at hf
  rcases hf with rfl | rfl | rfl | rfl | rfl | rfl | rfl | rfl <;> rfl

theorem ServiceCounters.field_foldl {f : ServiceCounters → Nat} (hf : f ∈ fields)
    (cs : List ServiceCounters) {c : ServiceCounters} (hc : f c < 2 ^ 64) :
    f (cs.foldl wrappingAdd c) = (f c + (cs.map f).sum) % 2 ^ 64 := by
  induction cs generalizing c with
  | nil => simpa using (Nat.mod_eq_of_lt hc).symm
  | cons d cs ih =>
    have hadd := field_wrappingAdd hf c d
    rw [List.foldl_cons, ih (hadd ▸ Nat.mod_lt _ (Nat.two_pow_pos 64)), hadd, u64Add,
      Nat.mod_add_mod, List.map_cons, List.sum_cons, Nat.add_assoc]

/-- Every counter of an aggregate is the sum of the attested ones, reduced modulo `2 ^ 64`. -/
theorem field_aggregateServiceCounters {f : ServiceCounters → Nat} (hf : f ∈ ServiceCounters.fields)
    (attestations : List ServiceAttestation) :
    f (aggregateServiceCounters attestations) =
      (attestations.map fun a => f a.counters).sum % 2 ^ 64 := by
  have hdefault := ServiceCounters.field_default hf
  rw [aggregateServiceCounters_eq, ServiceCounters.field_foldl hf _ (by rw [hdefault]; decide),
    hdefault, Nat.zero_add, List.map_map]
  rfl

namespace ConsensusEngine

variable {C : ConsensusEngine} {v observer : ValidatorId} {epoch : Epoch}
  {receipts receipts' : List RelayReceipt}

/-- Accepted receipts about validator `v` in one epoch. -/
def ReceiptsFor (C : ConsensusEngine) (v : ValidatorId) (epoch : Epoch)
    (receipts : List RelayReceipt) : Prop :=
  ∀ r ∈ receipts, r.sourceValidatorId = v ∧ r.epoch = epoch ∧ C.validateReceiptAssignment r = .ok ()

/-! ## Valid receipts -/

/-- A valid receipt: its slot is in its epoch, its witness and its destination are assigned. -/
theorem validateReceiptAssignment_ok {r : RelayReceipt} (h : C.validateReceiptAssignment r = .ok ()) :
    C.epochForSlot r.slot = r.epoch ∧
      C.isWitnessFor r.witnessValidatorId r.sourceValidatorId r.epoch = true ∧
      C.isRelayTargetFor r.sourceValidatorId r.destinationValidatorId r.epoch = true := by
  simp only [validateReceiptAssignment, except_bind_ok, rejectIf_ok] at h
  obtain ⟨_, hepoch, _, hwitness, htarget⟩ := h
  exact ⟨by simpa using hepoch, by simpa using hwitness, by simpa using htarget⟩

/-- The slots of an epoch. -/
theorem mem_range'_of_epochForSlot {slot : Slot} (hslots : 1 ≤ C.genesis.slotsPerEpoch)
    (h : C.epochForSlot slot = epoch) :
    slot ∈ List.range' (epoch * C.genesis.slotsPerEpoch) C.genesis.slotsPerEpoch := by
  rw [epochForSlot, if_neg (by omega)] at h
  have hlow := Nat.div_mul_le_self slot C.genesis.slotsPerEpoch
  have hhigh := Nat.lt_div_mul_add (a := slot) hslots
  rw [h] at hlow hhigh
  exact List.mem_range'_1.2 ⟨hlow, hhigh⟩

theorem ReceiptsFor.filter (h : C.ReceiptsFor v epoch receipts) (p : RelayReceipt → Bool) :
    C.ReceiptsFor v epoch (receipts.filter p) :=
  fun r hr => h r (List.mem_of_mem_filter hr)

/-! ## Distinct slots and distinct peers -/

/-- An epoch has no more heartbeat slots than slots. -/
theorem length_heartbeatSlots_le (hslots : 1 ≤ C.genesis.slotsPerEpoch)
    (h : C.ReceiptsFor v epoch receipts) :
    (heartbeatSlots receipts).length ≤ C.genesis.slotsPerEpoch := by
  have hsub : heartbeatSlots receipts ⊆
      List.range' (epoch * C.genesis.slotsPerEpoch) C.genesis.slotsPerEpoch := by
    intro slot hslot
    obtain ⟨r, hr, rfl⟩ := List.mem_map.1 (List.mem_dedup.1 hslot)
    obtain ⟨-, hepoch, hvalid⟩ := h r (List.mem_of_mem_filter hr)
    exact mem_range'_of_epochForSlot hslots ((validateReceiptAssignment_ok hvalid).1.trans hepoch)
  have hle := (List.subperm_of_subset (List.nodup_dedup _) hsub).length_le
  rwa [List.length_range'] at hle

/-- Receipts about one validator go to its relay targets. -/
theorem length_destinations_le (h : C.ReceiptsFor v epoch receipts) :
    (receipts.map (·.destinationValidatorId)).dedup.length ≤
      (((C.assignmentFor epoch v).map (·.relayTargets)).getD []).length := by
  have hsub : (receipts.map (·.destinationValidatorId)).dedup ⊆
      ((C.assignmentFor epoch v).map (·.relayTargets)).getD [] := by
    intro peer hpeer
    obtain ⟨r, hr, rfl⟩ := List.mem_map.1 (List.mem_dedup.1 hpeer)
    obtain ⟨rfl, rfl, hvalid⟩ := h r hr
    have htarget := (validateReceiptAssignment_ok hvalid).2.2
    rw [isRelayTargetFor] at htarget
    cases hassigned : C.assignmentFor r.epoch r.sourceValidatorId with
    | none =>
      rw [hassigned] at htarget
      exact absurd htarget (by simp)
    | some a =>
      rw [hassigned] at htarget
      simpa using htarget
  exact (List.subperm_of_subset (List.nodup_dedup _) hsub).length_le

/-! ## Order -/

theorem length_heartbeatSlots_perm (h : receipts.Perm receipts') :
    (heartbeatSlots receipts).length = (heartbeatSlots receipts').length :=
  (((h.filter _).map _).dedup).length_eq

/-- Nothing that is counted depends on the order of the receipts. -/
theorem countersFromReceipts_perm (h : receipts.Perm receipts') (failedSessions invalidReceipts : Nat) :
    C.countersFromReceipts v epoch receipts failedSessions invalidReceipts =
      C.countersFromReceipts v epoch receipts' failedSessions invalidReceipts := by
  have hpeers : (receipts.map (·.destinationValidatorId)).dedup.length =
      (receipts'.map (·.destinationValidatorId)).dedup.length := ((h.map _).dedup).length_eq
  simp only [countersFromReceipts, timelyDeliveries, length_heartbeatSlots_perm h, hpeers,
    h.countP_eq]

theorem countersForValidatorFromObserver_perm (h : receipts.Perm receipts') :
    C.countersForValidatorFromObserver v observer epoch receipts =
      C.countersForValidatorFromObserver v observer epoch receipts' := by
  have hobserved := h.filter fun r =>
    r.sourceValidatorId == v && r.epoch == epoch && r.witnessValidatorId == observer
  simp only [countersForValidatorFromObserver, timelyDeliveries,
    length_heartbeatSlots_perm hobserved, hobserved.countP_eq, hobserved.isEmpty_eq]

/-! ## The bounds -/

/-- **Counters stay within their denominators.** Whatever accepted receipts about a validator and an
epoch are counted, with repetitions and in any order, there are at most as many uptime windows as
windows and at most as many peers as expected, for the validator and for each of its observers. -/
theorem counters_within_denominators (C : ConsensusEngine) (hslots : 1 ≤ C.genesis.slotsPerEpoch)
    (v : ValidatorId) (epoch : Epoch) (receipts : List RelayReceipt)
    (h : ∀ r ∈ receipts, r.sourceValidatorId = v ∧ r.epoch = epoch ∧
      C.validateReceiptAssignment r = .ok ()) :
    (∀ failedSessions invalidReceipts : Nat,
      let counters := C.countersFromReceipts v epoch receipts failedSessions invalidReceipts
      counters.uptimeWindows ≤ counters.totalWindows ∧
        counters.distinctPeers ≤ counters.expectedPeers ∧
        ∀ receipts' : List RelayReceipt, receipts.Perm receipts' →
          C.countersFromReceipts v epoch receipts' failedSessions invalidReceipts = counters) ∧
    ∀ observer : ValidatorId,
      let counters := C.countersForValidatorFromObserver v observer epoch receipts
      counters.uptimeWindows ≤ counters.totalWindows ∧
        counters.distinctPeers ≤ counters.expectedPeers ∧
        ∀ receipts' : List RelayReceipt, receipts.Perm receipts' →
          C.countersForValidatorFromObserver v observer epoch receipts' = counters := by
  refine ⟨fun failedSessions invalidReceipts => ⟨?_, ?_, fun receipts' hperm => ?_⟩,
    fun observer => ⟨?_, ?_, fun receipts' hperm => ?_⟩⟩
  · exact (length_heartbeatSlots_le hslots h).trans (Nat.le_max_left _ _)
  · exact (length_destinations_le h).trans (Nat.le_max_left _ _)
  · exact countersFromReceipts_perm hperm.symm failedSessions invalidReceipts
  · rw [countersForValidatorFromObserver]
    split_ifs with hwitness
    · exact Nat.le_refl 0
    · exact (length_heartbeatSlots_le hslots (ReceiptsFor.filter h _)).trans (Nat.le_max_left _ _)
  · rw [countersForValidatorFromObserver]
    split_ifs with hwitness
    · exact Nat.le_refl 0
    · show (if _ then 0 else 1) ≤ 1
      split_ifs
      · exact Nat.zero_le 1
      · exact Nat.le_refl 1
  · exact countersForValidatorFromObserver_perm hperm.symm

/-! ## What an observer counts -/

/-- Counters that an observer of a validator can count: of one epoch's windows, of one peer, and without
penalties. Deliveries have no bound. -/
structure InRange (C : ConsensusEngine) (c : ServiceCounters) : Prop where
  totalWindows : c.totalWindows = max C.genesis.slotsPerEpoch 1
  expectedDeliveries : c.expectedDeliveries = max C.genesis.slotsPerEpoch 1
  expectedPeers : c.expectedPeers = 1
  uptimeWindows : c.uptimeWindows ≤ c.totalWindows
  distinctPeers : c.distinctPeers ≤ 1
  failedSessions : c.failedSessions = 0
  invalidReceipts : c.invalidReceipts = 0

theorem countersForValidatorFromObserver_inRange (hslots : 1 ≤ C.genesis.slotsPerEpoch)
    (hobserver : observer ∈ C.serviceCommitteeFor epoch v)
    (hvalid : ∀ r ∈ receipts, C.validateReceiptAssignment r = .ok ()) :
    C.InRange (C.countersForValidatorFromObserver v observer epoch receipts) := by
  have hwitness : (((C.assignmentFor epoch v).map (·.witnesses)).getD []).contains observer = true :=
    List.contains_iff_mem.2 hobserver
  have hobserved : C.ReceiptsFor v epoch (receipts.filter fun r =>
      r.sourceValidatorId == v && r.epoch == epoch && r.witnessValidatorId == observer) := by
    intro r hr
    obtain ⟨hr, hmatch⟩ := List.mem_filter.1 hr
    simp only [Bool.and_eq_true, beq_iff_eq] at hmatch
    exact ⟨hmatch.1.1, hmatch.1.2, hvalid r hr⟩
  rw [countersForValidatorFromObserver, hwitness]
  refine ⟨rfl, rfl, rfl, ?_, ?_, rfl, rfl⟩
  · exact (length_heartbeatSlots_le hslots hobserved).trans (Nat.le_max_left _ _)
  · show (if _ then 0 else 1) ≤ 1
    split_ifs
    · exact Nat.zero_le 1
    · exact Nat.le_refl 1

/-- A heartbeat of validator 1 in slot `slot` of epoch 2, delivered to a witness that saw it. -/
def heartbeatReceipt (slot : Slot) (witness : ValidatorId) : RelayReceipt where
  epoch := 2
  slot
  sourceValidatorId := 1
  destinationValidatorId := witness
  witnessValidatorId := witness
  messageClass := .heartbeat
  transcriptDigest := empty_hash
  latencyBucketMs := 0
  byteCountBucket := 0
  sequenceNumber := 0
  signature := {}

/-- Two slots heard by two witnesses, one receipt twice. -/
def heartbeatReceipts : List RelayReceipt :=
  [heartbeatReceipt 11 2, heartbeatReceipt 10 3, heartbeatReceipt 11 3, heartbeatReceipt 11 2]

theorem heartbeat_counters_within_denominators :
    ((sampleEnv 1).consensus.countersFromReceipts 1 2 heartbeatReceipts 0 0).uptimeWindows ≤
      ((sampleEnv 1).consensus.countersFromReceipts 1 2 heartbeatReceipts 0 0).totalWindows ∧
    (sampleEnv 1).consensus.countersForValidatorFromObserver 1 3 2 heartbeatReceipts.reverse =
      (sampleEnv 1).consensus.countersForValidatorFromObserver 1 3 2 heartbeatReceipts :=
  have h := counters_within_denominators (sampleEnv 1).consensus (by decide) 1 2 heartbeatReceipts
    (by decide +kernel)
  ⟨(h.1 0 0).1, (h.2 3).2.2 _ (List.reverse_perm _).symm⟩

end ConsensusEngine

end Entangrid
