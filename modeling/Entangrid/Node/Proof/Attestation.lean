import Entangrid.Consensus.Proof.Committee
import Entangrid.Consensus.Proof.Counters
import Entangrid.Node.Proof.Export

/-!
# The counters of accepted attestations

Acceptance checks who attests, not what: a member of the committee may sign any counters. The range
comes from the nodes that make attestations, whose receipts were checked when they were stored.

* `MadeByNode.inRange`: what a node attests is in range.
* `accepted_counters_in_range`: so sums over the attestations of nodes do not wrap, and each member
  has at most its own share of them.
-/

namespace Entangrid

variable {E : Env} {a : ServiceAttestation} {g : ServiceAggregate}

/-- An attestation that a node of the network made in some reachable state. -/
def MadeByNode (E : Env) (a : ServiceAttestation) : Prop :=
  ∃ E' n, E.SameNetwork E' ∧ Reachable E' AnyEvent n ∧
    buildLocalServiceAttestation E' n a.subjectValidatorId a.epoch = .ok a

/-! ## One attestation -/

theorem buildLocalServiceAttestation_ok {n : Node} {subject : ValidatorId} {epoch : Epoch}
    (h : buildLocalServiceAttestation E n subject epoch = .ok a) :
    a.committeeMemberId = E.me ∧
      a.counters = E.consensus.countersForValidatorFromObserver subject E.me epoch n.receipts := by
  simp only [buildLocalServiceAttestation, except_bind_ok] at h
  obtain ⟨signature, -, _, -, h⟩ := h
  obtain rfl := Except.ok.inj h
  exact ⟨rfl, rfl⟩

/-- A node counts receipts that it checked: what it attests as a member of the committee is in range. -/
theorem MadeByNode.inRange (hslots : 1 ≤ E.genesis.slotsPerEpoch) (h : MadeByNode E a)
    (hmember : a.committeeMemberId ∈ E.consensus.serviceCommitteeFor a.epoch a.subjectValidatorId) :
    E.consensus.InRange a.counters := by
  obtain ⟨E', n, hnetwork, hn, hbuild⟩ := h
  obtain ⟨hid, hcounters⟩ := buildLocalServiceAttestation_ok hbuild
  rw [hcounters, hnetwork.consensus_eq]
  refine ConsensusEngine.countersForValidatorFromObserver_inRange hslots (hid ▸ hmember) fun r hr => ?_
  rw [← hnetwork.consensus_eq]
  exact (hn.receiptInv.book.valid r hr).assigned

/-! ## The sums -/

theorem accepted_aggregateCounters {u : Unit} (h : E.consensus.validateServiceAggregate g = .ok u) :
    g.aggregateCounters = aggregateServiceCounters g.attestations := by
  simp only [ConsensusEngine.validateServiceAggregate, except_bind_ok, rejectIf_ok] at h
  obtain ⟨-, hwf, -⟩ := h
  simp only [ServiceAggregate.isWellFormed, Bool.not_eq_false', Bool.and_eq_true, beq_iff_eq] at hwf
  exact hwf.1.2

/-- The sum of a counter that is the same in all attestations. -/
theorem sum_counter_eq {attestations : List ServiceAttestation} {f : ServiceCounters → Nat} {c : Nat}
    (h : ∀ a ∈ attestations, f a.counters = c) :
    (attestations.map fun a => f a.counters).sum = attestations.length * c := by
  rw [List.map_congr_left h, List.map_const', List.sum_replicate_nat]

/-- The sum of a counter that is within a bound in all attestations. -/
theorem sum_counter_le {attestations : List ServiceAttestation} {f : ServiceCounters → Nat} {c : Nat}
    (h : ∀ a ∈ attestations, f a.counters ≤ c) :
    (attestations.map fun a => f a.counters).sum ≤ attestations.length * c := by
  induction attestations with
  | nil => exact Nat.zero_le _
  | cons a rest ih =>
    obtain ⟨ha, hrest⟩ := List.forall_mem_cons.1 h
    have hsum := ih hrest
    rw [List.map_cons, List.sum_cons, List.length_cons, Nat.succ_mul]
    omega

/-- Where the windows of the members and their deliveries fit in a `u64`, so does every sum. -/
theorem sum_counter_lt {attestations : List ServiceAttestation}
    (h : ∀ a ∈ attestations, E.consensus.InRange a.counters)
    (hwindows : attestations.length * max E.genesis.slotsPerEpoch 1 < 2 ^ 64)
    (hdeliveries : (attestations.map fun a => a.counters.timelyDeliveries).sum < 2 ^ 64)
    {f : ServiceCounters → Nat} (hf : f ∈ ServiceCounters.fields) :
    (attestations.map fun a => f a.counters).sum < 2 ^ 64 := by
  have hmembers : attestations.length * 1 < 2 ^ 64 :=
    lt_of_le_of_lt (Nat.mul_le_mul_left _ (Nat.le_max_right _ _)) hwindows
  simp only [ServiceCounters.fields, List.mem_cons, List.not_mem_nil, or_false] at hf
  rcases hf with rfl | rfl | rfl | rfl | rfl | rfl | rfl | rfl
  · refine lt_of_le_of_lt (sum_counter_le fun a ha => ?_) hwindows
    exact (h a ha).totalWindows ▸ (h a ha).uptimeWindows
  · rwa [sum_counter_eq fun a ha => (h a ha).totalWindows]
  · exact hdeliveries
  · rwa [sum_counter_eq fun a ha => (h a ha).expectedDeliveries]
  · exact lt_of_le_of_lt (sum_counter_le fun a ha => (h a ha).distinctPeers) hmembers
  · rwa [sum_counter_eq fun a ha => (h a ha).expectedPeers]
  · rw [sum_counter_eq fun a ha => (h a ha).failedSessions]
    exact Nat.two_pow_pos 64
  · rw [sum_counter_eq fun a ha => (h a ha).invalidReceipts]
    exact Nat.two_pow_pos 64

/-- **Counters of accepted attestations.** The attestations of an accepted aggregate are of different
members of the committee, and an aggregated counter is their sum where that fits in a `u64`. What a node
attested is in range. Where nodes made all of them and neither the windows of the members nor their
deliveries exceed a `u64`, every sum fits, there are no penalties, and the uptime and the peer of one
member are at most one share, out of as many as there are members. -/
theorem accepted_counters_in_range (E : Env) (hslots : 1 ≤ E.genesis.slotsPerEpoch)
    (g : ServiceAggregate) (hg : validateServiceAggregate E g = .ok ()) :
    (g.members.Nodup ∧ g.members ⊆ E.consensus.serviceCommitteeFor g.epoch g.subjectValidatorId) ∧
    (∀ f ∈ ServiceCounters.fields, (g.attestations.map fun a => f a.counters).sum < 2 ^ 64 →
      f g.aggregateCounters = (g.attestations.map fun a => f a.counters).sum) ∧
    (∀ a ∈ g.attestations, MadeByNode E a → E.consensus.InRange a.counters) ∧
    ((∀ a ∈ g.attestations, MadeByNode E a) →
      g.attestations.length * max E.genesis.slotsPerEpoch 1 < 2 ^ 64 →
      (g.attestations.map fun a => a.counters.timelyDeliveries).sum < 2 ^ 64 →
      (∀ f ∈ ServiceCounters.fields,
        f g.aggregateCounters = (g.attestations.map fun a => f a.counters).sum) ∧
      g.aggregateCounters.failedSessions + g.aggregateCounters.invalidReceipts = 0 ∧
      ∀ a ∈ g.attestations,
        g.attestations.length * a.counters.uptimeWindows ≤ g.aggregateCounters.totalWindows ∧
        g.attestations.length * a.counters.distinctPeers ≤ g.aggregateCounters.expectedPeers) := by
  simp only [validateServiceAggregate, except_bind_ok] at hg
  obtain ⟨_, haccepted, -⟩ := hg
  obtain ⟨-, habout, hnodup, hcommittee, -⟩ := ConsensusEngine.accepted_attestations haccepted
  have hsum (f : ServiceCounters → Nat) (hf : f ∈ ServiceCounters.fields)
      (hfits : (g.attestations.map fun a => f a.counters).sum < 2 ^ 64) :
      f g.aggregateCounters = (g.attestations.map fun a => f a.counters).sum := by
    rw [accepted_aggregateCounters haccepted, field_aggregateServiceCounters hf g.attestations]
    exact Nat.mod_eq_of_lt hfits
  have hrange (a : ServiceAttestation) (ha : a ∈ g.attestations) (hmade : MadeByNode E a) :
      E.consensus.InRange a.counters := by
    refine hmade.inRange hslots ?_
    rw [(habout a ha).1, (habout a ha).2]
    exact hcommittee (List.mem_map.2 ⟨a, ha, rfl⟩)
  refine ⟨⟨hnodup, hcommittee⟩, hsum, hrange, fun hmade hwindows hdeliveries => ?_⟩
  have hall := fun a ha => hrange a ha (hmade a ha)
  have hexact (f : ServiceCounters → Nat) (hf : f ∈ ServiceCounters.fields) :
      f g.aggregateCounters = (g.attestations.map fun a => f a.counters).sum :=
    hsum f hf (sum_counter_lt hall hwindows hdeliveries hf)
  have htotal := (hexact (·.totalWindows) (by simp [ServiceCounters.fields])).trans
    (sum_counter_eq fun a ha => (hall a ha).totalWindows)
  have hexpected := (hexact (·.expectedPeers) (by simp [ServiceCounters.fields])).trans
    (sum_counter_eq fun a ha => (hall a ha).expectedPeers)
  have hfailed := (hexact (·.failedSessions) (by simp [ServiceCounters.fields])).trans
    (sum_counter_eq fun a ha => (hall a ha).failedSessions)
  have hinvalid := (hexact (·.invalidReceipts) (by simp [ServiceCounters.fields])).trans
    (sum_counter_eq fun a ha => (hall a ha).invalidReceipts)
  refine ⟨hexact, by omega, fun a ha => ⟨?_, ?_⟩⟩
  · rw [htotal, ← (hall a ha).totalWindows]
    exact Nat.mul_le_mul_left _ (hall a ha).uptimeWindows
  · rw [hexpected]
    exact Nat.mul_le_mul_left _ (hall a ha).distinctPeers

/-! ## Runs -/

/-- A heartbeat of validator 1 in the first epoch. -/
def pulseOf1 (slot : Slot) : HeartbeatPulse where
  epoch := 0
  slot
  sourceValidatorId := 1
  sequenceNumber := slot
  emittedAtUnixMillis := 0

/-- Validator 2 hears two heartbeats of validator 1, and validator 3 one. -/
def listener (member : ValidatorId) : Option Node :=
  runEvents (receiptEnv member) 8
    ((List.range (4 - member)).map fun slot => .received 1 (.heartbeatPulse (pulseOf1 slot)))
    (.fresh (receiptEnv member) (some 1))

def memberAttestation (member : ValidatorId) : Option ServiceAttestation :=
  (listener member).bind fun n => (buildLocalServiceAttestation (receiptEnv member) n 1 0).toOption

def memberAttestations : List ServiceAttestation := [2, 3].filterMap memberAttestation

/-- What they attest makes up an aggregate. -/
def busyAggregate : ServiceAggregate where
  subjectValidatorId := 1
  epoch := 0
  attestationRoot := serviceAttestationRoot rollingHashing memberAttestations
  attestations := memberAttestations
  aggregateCounters := aggregateServiceCounters memberAttestations

theorem busyAggregate_made : ∀ a ∈ busyAggregate.attestations, MadeByNode (receiptEnv 1) a := by
  have habout : ∀ a ∈ memberAttestations, a.subjectValidatorId = 1 ∧ a.epoch = 0 := by decide +kernel
  unfold busyAggregate
  dsimp only
  intro a ha
  obtain ⟨hsubject, hepoch⟩ := habout a ha
  unfold memberAttestations at ha
  obtain ⟨member, -, hmember⟩ := List.mem_filterMap.1 ha
  obtain ⟨n, hn, hbuilt⟩ := Option.bind_eq_some_iff.1 hmember
  refine ⟨receiptEnv member, n, ⟨rfl, rfl, rfl, rfl⟩,
    .runEvents (.fresh _) (fun _ _ _ => trivial) hn, ?_⟩
  rw [hsubject, hepoch]
  exact toOption_eq_some.1 hbuilt

/-- The uptimes, deliveries and peers of two members add up. -/
theorem busy_aggregate_adds_up :
    busyAggregate.attestations.map (fun a => (a.counters.uptimeWindows, a.counters.timelyDeliveries,
      a.counters.distinctPeers)) = [(2, 2, 1), (1, 1, 1)] ∧
    (∀ a ∈ busyAggregate.attestations, (receiptEnv 1).consensus.InRange a.counters) ∧
    (∀ f ∈ ServiceCounters.fields, f busyAggregate.aggregateCounters =
      (busyAggregate.attestations.map fun a => f a.counters).sum) ∧
    (∀ a ∈ busyAggregate.attestations,
      2 * a.counters.uptimeWindows ≤ busyAggregate.aggregateCounters.totalWindows) := by
  obtain ⟨-, -, hrange, hsums⟩ := accepted_counters_in_range (receiptEnv 1) (by decide) busyAggregate
    (by decide +kernel)
  have hcounted : busyAggregate.attestations.map (fun a => (a.counters.uptimeWindows,
      a.counters.timelyDeliveries, a.counters.distinctPeers)) = [(2, 2, 1), (1, 1, 1)] := by
    decide +kernel
  have hlength : busyAggregate.attestations.length = 2 := by decide +kernel
  obtain ⟨hexact, -, hshares⟩ := hsums busyAggregate_made (by decide +kernel) (by decide +kernel)
  rw [hlength] at hshares
  exact ⟨hcounted, fun a ha => hrange a ha (busyAggregate_made a ha), hexact,
    fun a ha => (hshares a ha).1⟩

/-- Counters that nobody counted. -/
def wildCounters : ServiceCounters where
  uptimeWindows := 2 ^ 64 - 1
  totalWindows := 1
  failedSessions := 2 ^ 63
  invalidReceipts := 2 ^ 63

/-- What a node counts in the sample network that heard one heartbeat. -/
def honestCounters : ServiceCounters where
  uptimeWindows := 1
  totalWindows := 5
  timelyDeliveries := 1
  expectedDeliveries := 5
  distinctPeers := 1
  expectedPeers := 1

/-- One member of the committee attests the wild counters, the other one honest ones. -/
def wildAggregate : ServiceAggregate :=
  let committee := (sampleEnv 1).consensus.serviceCommitteeFor 0 1
  let attestations := committee.map fun member =>
    signedServiceAttestation 1 member 0
      (if committee.head? = some member then wildCounters else honestCounters)
  { subjectValidatorId := 1, epoch := 0
    attestationRoot := serviceAttestationRoot rollingHashing attestations
    attestations, aggregateCounters := aggregateServiceCounters attestations }

/-- Six timely receipts of one slot. -/
def busyReceipts : List RelayReceipt :=
  (List.range 6).map fun i => { ConsensusEngine.heartbeatReceipt 10 2 with sequenceNumber := i }

/-- The sample network with epochs of `2 ^ 63` slots. -/
def longEpochEnv : Env :=
  { sampleEnv 1 with genesis := { sampleGenesis with slotsPerEpoch := 2 ^ 63 } }

def longEpochAggregate : ServiceAggregate :=
  serviceAggregateForSubject longEpochEnv.consensus 1 0
    { totalWindows := 2 ^ 63, expectedDeliveries := 2 ^ 63, expectedPeers := 1 }

/-- Wild counters are accepted: they are out of range, and their sum does not fit in a `u64`, nor does that
of the penalties. The deliveries that a member counts have no bound either, and with long enough epochs
the sum of honest counters does not fit. -/
theorem wild_counters_are_accepted :
    (validateServiceAggregate (sampleEnv 1) wildAggregate = .ok () ∧
      (∃ a ∈ wildAggregate.attestations,
        a.counters.totalWindows < a.counters.uptimeWindows ∧ a.counters.expectedPeers = 0) ∧
      (wildAggregate.attestations.map fun a => a.counters.uptimeWindows).sum = 2 ^ 64 ∧
      wildAggregate.aggregateCounters.failedSessions +
        wildAggregate.aggregateCounters.invalidReceipts = 2 ^ 64) ∧
    ((∀ r ∈ busyReceipts, (sampleEnv 1).consensus.validateReceiptAssignment r = .ok ()) ∧
      let counters := (sampleEnv 1).consensus.countersForValidatorFromObserver 1 2 2 busyReceipts
      counters.expectedDeliveries < counters.timelyDeliveries) ∧
    validateServiceAggregate longEpochEnv longEpochAggregate = .ok () ∧
      (∀ a ∈ longEpochAggregate.attestations, a.counters =
        longEpochEnv.consensus.countersForValidatorFromObserver 1 a.committeeMemberId 0 []) ∧
      (longEpochAggregate.attestations.map fun a => a.counters.totalWindows).sum = 2 ^ 64 := by
  decide +kernel

end Entangrid
