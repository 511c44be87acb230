import Entangrid.Lib.MapTotal
import Entangrid.Node.Proof.Evidence
import Entangrid.Node.Proof.Filing
import Entangrid.Node.Start

/-!
# What the files of records hold

At every moment of a life the files of receipts, attestations, aggregates and certificates tell what
the node holds: the receipts as they are, the attestations in the order in which each replaced the
one before, and of every held certificate its last copy. What else the certificate file holds, the
node found there when it started.

* `attestationMap`, `certificateMap`: the maps that the lines of a file build, one after the other.
* `AttestationFile`: every line is valid and replaces what the lines before it hold.
* `RecordsFiled`: the invariant; `recordsKept_filing` shows that every filing keeps it.
-/

namespace Entangrid

variable {E : Env} {n n' : Node} {d d' : Disk}

/-! ## The files -/

structure RecordFiles where
  receipts : List RelayReceipt
  serviceAttestations : List ServiceAttestation
  serviceAggregates : List ServiceAggregate
  quorumCertificates : List QuorumCertificate

namespace Disk

def recordFiles (d : Disk) : RecordFiles where
  receipts := d.receipts
  serviceAttestations := d.serviceAttestations
  serviceAggregates := d.serviceAggregates
  quorumCertificates := d.quorumCertificates

theorem write_recordFiles_congr (h : d'.recordFiles = d.recordFiles) (w : StorageWrite) :
    (d'.write w).recordFiles = (d.write w).recordFiles := by
  have hreceipts : d'.receipts = d.receipts := congrArg RecordFiles.receipts h
  have hattestations : d'.serviceAttestations = d.serviceAttestations :=
    congrArg RecordFiles.serviceAttestations h
  have haggregates : d'.serviceAggregates = d.serviceAggregates :=
    congrArg RecordFiles.serviceAggregates h
  have hcertificates : d'.quorumCertificates = d.quorumCertificates :=
    congrArg RecordFiles.quorumCertificates h
  cases w <;>
    simp only [write, recordFiles, hreceipts, hattestations, haggregates, hcertificates]

theorem write_recordFiles {w : StorageWrite} (h : w.ofRecords = false) :
    (d.write w).recordFiles = d.recordFiles := by
  cases w with
  | appendReceipt | overwriteReceipts | appendServiceAttestation | appendServiceAggregate
  | appendQuorumCertificate | overwriteQuorumCertificates => cases h
  | _ => rfl

/-- Only the writes to the files of records change them. -/
theorem after_filter (d : Disk) (effects : List Effect) :
    (d.after (effects.filter Effect.ofRecords)).recordFiles = (d.after effects).recordFiles := by
  induction effects with
  | nil => rfl
  | cons effect earlier ih =>
    cases hrecords : effect.ofRecords with
    | false =>
      rw [List.filter_cons_of_neg (by simp [hrecords]), ih]
      cases effect with
      | write w => exact (write_recordFiles hrecords).symm
      | _ => rfl
    | true =>
      rw [List.filter_cons_of_pos hrecords]
      cases effect with
      | write w => exact write_recordFiles_congr ih w
      | _ => cases hrecords

theorem recordFiles_of_filed (h : n'.filed = n.filed) :
    (d.after n'.effects).recordFiles = (d.after n.effects).recordFiles := by
  have heffects : n'.effects.filter Effect.ofRecords = n.effects.filter Effect.ofRecords :=
    congrArg Filed.effects h
  rw [← after_filter, heffects, after_filter]

end Disk

/-! ## The maps of a file -/

def attestationMap (file : List ServiceAttestation) :
    BTreeMap (ValidatorId × Epoch) (BTreeMap ValidatorId ServiceAttestation) :=
  file.foldl (fun held a => held.insert a.key ((held.getD a.key ∅).insert a.committeeMemberId a)) ∅

/-- The last attestation of a member for a subject and epoch. -/
def lastAttested (file : List ServiceAttestation) (k : ValidatorId × Epoch) (v : ValidatorId) :
    Option ServiceAttestation :=
  ((attestationMap file).getD k ∅)[v]?

def certificateMap (file : List QuorumCertificate) : BTreeMap HashBytes QuorumCertificate :=
  file.foldl (fun held qc => held.insert qc.blockHash qc) ∅

section
variable {file : List ServiceAttestation} {a : ServiceAttestation} {k : ValidatorId × Epoch}
  {v : ValidatorId}

theorem attestationMap_concat : attestationMap (file ++ [a]) =
    (attestationMap file).insert a.key
      (((attestationMap file).getD a.key ∅).insert a.committeeMemberId a) := by
  rw [attestationMap, List.foldl_append]
  rfl

theorem lastAttested_concat : lastAttested (file ++ [a]) k v =
    if a.key = k ∧ a.committeeMemberId = v then some a else lastAttested file k v := by
  rw [lastAttested, attestationMap_concat, Std.ExtTreeMap.getD_insert]
  by_cases hk : a.key = k
  · subst hk
    rw [if_pos Std.ReflCmp.compare_self, Std.ExtTreeMap.getElem?_insert]
    simp only [Std.compare_eq_iff_eq, true_and]
    rfl
  · rw [if_neg (by simpa using hk), if_neg (fun h => hk h.1)]
    rfl

theorem mem_of_lastAttested {x : ServiceAttestation} (h : lastAttested file k v = some x) :
    x ∈ file := by
  induction file using List.reverseRecOn with
  | nil => simp [lastAttested, attestationMap] at h
  | append_singleton file a ih =>
    rw [lastAttested_concat] at h
    split_ifs at h
    · obtain rfl := Option.some.inj h
      simp
    · exact List.mem_append_left _ (ih h)

theorem mem_of_attestationMap {byMember : BTreeMap ValidatorId ServiceAttestation}
    {x : ServiceAttestation} (hk : (attestationMap file)[k]? = some byMember)
    (hx : x ∈ byMember.toList.map (·.2)) : x ∈ file := by
  obtain ⟨v, hv⟩ := Std.ExtTreeMap.mem_values.1 hx
  refine mem_of_lastAttested (k := k) (v := v) ?_
  rw [lastAttested, Std.ExtTreeMap.getD_eq_getD_getElem?, hk]
  exact hv

end

/-! ## Attestations in order -/

/-- Every line is valid and replaces what the lines before it hold. -/
inductive AttestationFile (E : Env) : List ServiceAttestation → Prop
  | nil : AttestationFile E []
  | concat {file : List ServiceAttestation} {a : ServiceAttestation} (h : AttestationFile E file)
      (hvalid : validateServiceAttestation E a = .ok ())
      (hreplaces : attestationReplaces E (lastAttested file a.key a.committeeMemberId) a = true) :
      AttestationFile E (file ++ [a])

namespace AttestationFile

variable {file : List ServiceAttestation} {a : ServiceAttestation}

theorem valid (h : AttestationFile E file) (ha : a ∈ file) :
    validateServiceAttestation E a = .ok () := by
  induction h with
  | nil => cases ha
  | concat _ hvalid _ ih =>
    rcases List.mem_append.1 ha with ha | ha
    · exact ih ha
    · obtain rfl := List.mem_singleton.1 ha
      exact hvalid

/-- What a member attested only grows. -/
theorem covered (h : AttestationFile E file) (ha : a ∈ file) :
    ∃ x, lastAttested file a.key a.committeeMemberId = some x ∧ a.counters ≤ x.counters := by
  induction h with
  | nil => cases ha
  | @concat file b _ _ hreplaces ih =>
    rw [lastAttested_concat]
    split_ifs with hplace
    · refine ⟨b, rfl, ?_⟩
      rcases List.mem_append.1 ha with ha | ha
      · obtain ⟨x, hx, hle⟩ := ih ha
        rw [hplace.1, hplace.2, hx] at hreplaces
        exact hle.trans (attestationReplaces_some hreplaces).1
      · exact (List.mem_singleton.1 ha ▸ le_refl _)
    · rcases List.mem_append.1 ha with ha | ha
      · exact ih ha
      · obtain rfl := List.mem_singleton.1 ha
        exact absurd ⟨rfl, rfl⟩ hplace

/-- The next line was not seen before. -/
theorem notSeen (h : AttestationFile E file)
    (hreplaces : attestationReplaces E (lastAttested file a.key a.committeeMemberId) a = true)
    {b : ServiceAttestation} (hb : b ∈ file) : b.unsigned ≠ a.unsigned := by
  intro heq
  obtain ⟨x, hx, hle⟩ := h.covered hb
  have hkey : b.unsigned.key = a.unsigned.key := by rw [heq]
  have hmember : b.unsigned.committeeMemberId = a.unsigned.committeeMemberId := by rw [heq]
  have hcounters : b.unsigned.counters = a.unsigned.counters := by rw [heq]
  change b.key = a.key at hkey
  change b.committeeMemberId = a.committeeMemberId at hmember
  change b.counters = a.counters at hcounters
  rw [hkey, hmember] at hx
  rw [hx] at hreplaces
  exact (attestationReplaces_some hreplaces).2 (hcounters ▸ hle)

end AttestationFile

/-! ## The invariant -/

/-- The attestations of the node are those of the file, and an aggregate is put together from
them. -/
structure EvidenceFiled (E : Env) (files : RecordFiles) (n : Node) : Prop where
  held : n.serviceAttestations = attestationMap files.serviceAttestations
  file : AttestationFile E files.serviceAttestations
  protocol : E.v2 = false → files.serviceAttestations = []
  aggregates : ∀ g ∈ files.serviceAggregates, E.consensus.validateServiceAggregate g = .ok () ∧
    ∀ a ∈ g.attestations, a ∈ files.serviceAttestations

/-- The file of certificates ends with the held ones; the others are older than this life. -/
structure CertificatesFiled (old : List QuorumCertificate) (files : RecordFiles) (n : Node) :
    Prop where
  keyed : ∀ (h : HashBytes) (qc : QuorumCertificate), n.quorumCertificates[h]? = some qc →
    qc.blockHash = h
  filed : ∀ (h : HashBytes) (qc : QuorumCertificate), n.quorumCertificates[h]? = some qc →
    (certificateMap files.quorumCertificates)[h]? = some qc
  known : ∀ qc ∈ files.quorumCertificates,
    n.quorumCertificates[qc.blockHash]? = some qc ∨ qc ∈ old

/-- The files of records of a node that started on `d`. -/
structure RecordsFiled (E : Env) (d : Disk) (n : Node) : Prop where
  receipts : (d.after n.effects).receipts = n.receipts
  evidence : EvidenceFiled E (d.after n.effects).recordFiles n
  certificates : CertificatesFiled d.quorumCertificates (d.after n.effects).recordFiles n

theorem EvidenceFiled.congr {files files' : RecordFiles} (h : EvidenceFiled E files n)
    (hheld : n'.serviceAttestations = n.serviceAttestations)
    (hattestations : files'.serviceAttestations = files.serviceAttestations)
    (haggregates : files'.serviceAggregates = files.serviceAggregates) :
    EvidenceFiled E files' n' := by
  refine ⟨?_, ?_, ?_, ?_⟩
  · rw [hheld, hattestations, h.held]
  · rw [hattestations]
    exact h.file
  · rw [hattestations]
    exact h.protocol
  · rw [hattestations, haggregates]
    exact h.aggregates

theorem CertificatesFiled.congr {old : List QuorumCertificate} {files files' : RecordFiles}
    (h : CertificatesFiled old files n) (hheld : n'.quorumCertificates = n.quorumCertificates)
    (hfile : files'.quorumCertificates = files.quorumCertificates) :
    CertificatesFiled old files' n' := by
  refine ⟨?_, ?_, ?_⟩
  · rw [hheld]
    exact h.keyed
  · rw [hheld, hfile]
    exact h.filed
  · rw [hheld, hfile]
    exact h.known

theorem RecordsFiled.of_filed (h : RecordsFiled E d n) (hfiled : n'.filed = n.filed) :
    RecordsFiled E d n' := by
  have hfiles := Disk.recordFiles_of_filed (d := d) hfiled
  refine ⟨?_, ?_, ?_⟩
  · rw [show n'.receipts = n.receipts from congrArg Filed.receipts hfiled, ← h.receipts]
    exact congrArg RecordFiles.receipts hfiles
  · rw [hfiles]
    exact h.evidence.congr (congrArg Filed.serviceAttestations hfiled) rfl rfl
  · rw [hfiles]
    exact h.certificates.congr (congrArg Filed.quorumCertificates hfiled) rfl

/-! ## Receipts -/

theorem RecordsFiled.withReceipt (h : RecordsFiled E d n) (receipt : RelayReceipt) :
    RecordsFiled E d (n.withReceipt E receipt) := by
  unfold Node.withReceipt ReceiptBook.persist
  split_ifs
  · exact h
  · exact h
  · refine ⟨?_, h.evidence.congr rfl rfl rfl, h.certificates.congr rfl rfl⟩
    exact congrArg (· ++ [receipt]) h.receipts

theorem RecordsFiled.withCommitmentReceipts (h : RecordsFiled E d n)
    (receipts : List RelayReceipt) : RecordsFiled E d (n.withCommitmentReceipts E receipts) := by
  induction receipts generalizing n with
  | nil => exact h
  | cons receipt receipts ih => exact ih (h.withReceipt receipt)

/-! ## Evidence -/

theorem RecordsFiled.attested {a : ServiceAttestation} (h : RecordsFiled E d n) (hv2 : E.v2 = true)
    (hvalid : validateServiceAttestation E a = .ok ())
    (hreplaces : attestationReplaces E
      ((n.serviceAttestations.getD (a.subjectValidatorId, a.epoch) ∅)[a.committeeMemberId]?) a =
        true) :
    RecordsFiled E d ((addServiceAttestation E a n).written (.appendServiceAttestation a)) := by
  have hheld : n.serviceAttestations = attestationMap (d.after n.effects).serviceAttestations :=
    h.evidence.held
  refine ⟨h.receipts, ⟨?_, ?_, ?_, ?_⟩, h.certificates.congr rfl rfl⟩
  · change _ = attestationMap ((d.after n.effects).serviceAttestations ++ [a])
    rw [attestationMap_concat, ← hheld]
    rfl
  · refine .concat h.evidence.file hvalid ?_
    change attestationReplaces E (lastAttested (d.after n.effects).serviceAttestations _ _) a = true
    rw [lastAttested, ← hheld]
    exact hreplaces
  · intro hoff
    rw [hv2] at hoff
    cases hoff
  · intro g hg
    obtain ⟨hvalid, hmem⟩ := h.evidence.aggregates g hg
    exact ⟨hvalid, fun b hb => List.mem_append_left _ (hmem b hb)⟩

/-- An aggregate that the node builds is valid, and made of attestations of the file. -/
theorem EvidenceFiled.built {files : RecordFiles} (h : EvidenceFiled E files n)
    {subject : ValidatorId} {epoch : Epoch} {g : ServiceAggregate}
    (hbuilt : buildServiceAggregate E n subject epoch = some g) :
    E.consensus.validateServiceAggregate g = .ok () ∧
      ∀ a ∈ g.attestations, a ∈ files.serviceAttestations := by
  unfold buildServiceAggregate at hbuilt
  split_ifs at hbuilt
  obtain ⟨byMember, hfound, hbuilt⟩ := Option.bind_eq_some_iff.1 hbuilt
  dsimp only at hbuilt
  split_ifs at hbuilt with hvalid
  obtain rfl := Option.some.inj hbuilt
  rw [h.held] at hfound
  refine ⟨?_, fun a ha => mem_of_attestationMap hfound ha⟩
  unfold aggregateIsValid at hvalid
  cases hcheck : E.consensus.validateServiceAggregate _ with
  | ok => rfl
  | error =>
    rw [hcheck] at hvalid
    cases hvalid

theorem RecordsFiled.aggregated {g : ServiceAggregate} (h : RecordsFiled E d n)
    (hbuilt : buildServiceAggregate E n g.subjectValidatorId g.epoch = some g) :
    RecordsFiled E d ((addServiceAggregate E g n).written (.appendServiceAggregate g)) := by
  refine ⟨h.receipts, ⟨h.evidence.held, h.evidence.file, h.evidence.protocol, ?_⟩,
    h.certificates.congr rfl rfl⟩
  intro g' hg'
  rcases List.mem_append.1 hg' with hg' | hg'
  · exact h.evidence.aggregates g' hg'
  · obtain rfl := List.mem_singleton.1 hg'
    exact h.evidence.built hbuilt

/-! ## Certificates -/

theorem certificateMap_concat {file : List QuorumCertificate} {qc : QuorumCertificate} :
    certificateMap (file ++ [qc]) = (certificateMap file).insert qc.blockHash qc := by
  rw [certificateMap, List.foldl_append]
  rfl

/-- A file of the held certificates gives them back. -/
theorem certificateMap_values {held : BTreeMap HashBytes QuorumCertificate}
    (hkeyed : ∀ (h : HashBytes) (qc : QuorumCertificate), held[h]? = some qc → qc.blockHash = h)
    {h : HashBytes} {qc : QuorumCertificate} (hqc : held[h]? = some qc) :
    (certificateMap (held.toList.map (·.2)))[h]? = some qc := by
  have hkeys : ((held.toList.map (·.2)).map (·.blockHash)).Nodup := by
    rw [Std.ExtTreeMap.values_map_eq_keys hkeyed]
    exact Std.ExtTreeMap.nodup_keys
  have hmem : qc ∈ held.toList.map (·.2) := Std.ExtTreeMap.mem_values.2 ⟨h, hqc⟩
  have hlast : ((held.toList.map (·.2)).foldl (fun m x => m.insert x.blockHash (id x))
      (∅ : BTreeMap HashBytes QuorumCertificate))[qc.blockHash]? = some (id qc) :=
    Std.ExtTreeMap.getElem?_foldl_insert_of_nodup hkeys hmem
  rw [← hkeyed h qc hqc]
  exact hlast

theorem RecordsFiled.certified {qc : QuorumCertificate} (h : RecordsFiled E d n)
    (hnew : n.hasQc qc.blockHash = false) :
    RecordsFiled E d ((n.addQc qc).written (.appendQuorumCertificate qc)) := by
  have hnone : n.quorumCertificates[qc.blockHash]? = none :=
    Std.ExtTreeMap.getElem?_eq_none_of_contains_eq_false hnew
  refine ⟨h.receipts, h.evidence.congr rfl rfl rfl, ⟨?_, ?_, ?_⟩⟩
  · intro k x hx
    change (n.addQc qc).quorumCertificates[k]? = some x at hx
    rw [Node.getElem?_addQc] at hx
    split_ifs at hx with hk
    · obtain rfl := Option.some.inj hx
      exact hk
    · exact h.certificates.keyed k x hx
  · intro k x hx
    change (n.addQc qc).quorumCertificates[k]? = some x at hx
    change (certificateMap (_ ++ [qc]))[k]? = some x
    rw [Node.getElem?_addQc] at hx
    rw [certificateMap_concat, Std.ExtTreeMap.getElem?_insert]
    simp only [Std.compare_eq_iff_eq]
    split_ifs at hx ⊢
    · exact hx
    · exact h.certificates.filed k x hx
  · intro x hx
    change (n.addQc qc).quorumCertificates[x.blockHash]? = some x ∨ _
    rcases List.mem_append.1 hx with hx | hx
    · refine (h.certificates.known x hx).imp_left fun hfound => ?_
      have hne : qc.blockHash ≠ x.blockHash := by
        intro heq
        rw [← heq, hnone] at hfound
        cases hfound
      rw [Node.getElem?_addQc, if_neg hne, hfound]
    · obtain rfl := List.mem_singleton.1 hx
      exact .inl (by rw [Node.getElem?_addQc, if_pos rfl])

/-- The file is written anew with what is held. -/
theorem RecordsFiled.rewritten (h : RecordsFiled E d n) (hreceipts : n'.receipts = n.receipts)
    (hattestations : n'.serviceAttestations = n.serviceAttestations)
    (heffects : n'.effects = n.effects)
    (hkeyed : ∀ (k : HashBytes) (qc : QuorumCertificate), n'.quorumCertificates[k]? = some qc →
      qc.blockHash = k) :
    RecordsFiled E d (n'.written (.overwriteQuorumCertificates n'.certificates)) := by
  refine ⟨?_, ?_, ⟨hkeyed, fun k qc hqc => certificateMap_values hkeyed hqc, fun qc hqc => ?_⟩⟩
  · change (d.after n'.effects).receipts = n'.receipts
    rw [heffects, hreceipts, h.receipts]
  · refine h.evidence.congr hattestations ?_ ?_
    · change (d.after n'.effects).serviceAttestations = _
      rw [heffects]
      rfl
    · change (d.after n'.effects).serviceAggregates = _
      rw [heffects]
      rfl
  · obtain ⟨k, hk⟩ := Std.ExtTreeMap.mem_values.1 hqc
    refine .inl ?_
    rw [hkeyed k qc hk]
    exact hk

/-! ## Every filing -/

/-- The invariant of the files of records is kept. -/
def RecordsKept (E : Env) (d : Disk) (n n' : Node) : Prop :=
  RecordsFiled E d n → RecordsFiled E d n'

instance (E : Env) (d : Disk) : IsPreorder Node (RecordsKept E d) where
  refl _ := id
  trans _ _ _ h h' hn := h' (h hn)

theorem recordsKept_filing : Filing E (RecordsKept E d) where
  offRecord hfiled h := h.of_filed hfiled
  receipt _ receipt h := h.withReceipt receipt
  attested hv2 hvalid hreplaces h := h.attested hv2 hvalid hreplaces
  aggregated hbuilt h := h.aggregated hbuilt
  certified hnew h := h.certified hnew
  retained n applied h := by
    refine h.rewritten rfl rfl rfl fun k qc hqc => ?_
    exact h.certificates.keyed k qc (Node.getElem?_of_retained hqc)
  adopted n ledger chain h := by
    have hmoved : RecordsFiled E d (n.withCanonicalChain ledger chain) := h.of_filed rfl
    have hbooked := hmoved.withCommitmentReceipts (chain.flatMap (·.commitmentReceipts))
    have hwritten : RecordsFiled E d
        ((((((n.withCanonicalChain ledger chain).withCommitmentReceipts E
        (chain.flatMap (·.commitmentReceipts))).rebuildSeenSets E).written
        (.writeSnapshot ledger.snapshot)).written (.overwriteBlocks chain)).written
        (.overwriteOrphans (n.withCanonicalChain ledger chain).orphanBlocks)) :=
      hbooked.of_filed rfl
    exact hwritten.rewritten rfl rfl rfl hwritten.certificates.keyed
  snapshotted n ledger chain h :=
    ⟨rfl, h.evidence.congr rfl rfl rfl, h.certificates.congr rfl rfl⟩

/-- A handled event keeps the files of records in order. -/
theorem RecordsFiled.handleEvent (h : RecordsFiled E d n) (fuel : Nat) (event : Event)
    (hrun : ((handleEvent E fuel event).run n).state? = some n') : RecordsFiled E d n' :=
  (recordsKept_filing.handleEvent fuel event n).of_state? hrun h

end Entangrid
