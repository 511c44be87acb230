import Entangrid.Node.Proof.Certificates
import Entangrid.Node.Proof.Restoring

/-!
# A restart on the node's own files

A node stops between two operations and starts again. The chain, the ledger, the receipts and the
attestations come back as they were. The certificates of canonical blocks come back if the votes of
those in the file can be stored one after the other, and the file holds none that the node no longer
held; otherwise the start can fail on files that the node itself wrote.

* `CleanLives`: a node over lives that each end between two operations.
* `CleanLives.recordsFiled`, `CleanLives.certificatesValid`: what its files hold at such a point.
* `clean_restart_round_trip`: what the next start yields.
-/

namespace Entangrid

variable {E : Env} {A : Source} {S : Set Block} {n n' : Node} {d : Disk}

/-! ## Lives -/

/-- A node over its lives: each ends between two operations, and the next starts on the files. All
blocks that arrive, and those it builds, are in `S`. -/
inductive CleanLives (E : Env) (S : Set Block) : Disk → Node → Prop
  | start {n : Node} (hrun : (startNode E {}).run (({} : Disk).node E) = .ok () n) :
      CleanLives E S {} n
  | restart {d : Disk} {n n' : Node} (hn : CleanLives E S d n)
      (hrun : (startNode E (d.after n.effects)).run ((d.after n.effects).node E) = .ok () n') :
      CleanLives E S (d.after n.effects) n'
  | handle {d : Disk} {n n' : Node} (fuel : Nat) (event : Event) (hn : CleanLives E S d n)
      (hevent : BlocksFrom S n event) (hown : ∀ block ∈ n'.builtBlocks, block ∈ S)
      (hrun : ((handleEvent E fuel event).run n).state? = some n') : CleanLives E S d n'

theorem CleanLives.lives (hn : CleanLives E S d n) : Lives E S d n := by
  induction hn with
  | start hrun => exact .start (by rw [hrun]; rfl)
  | restart _ hrun ih => exact .restart ih (.between List.suffix_rfl) (by rw [hrun]; rfl)
  | handle fuel event _ hevent hown hrun ih => exact .handle fuel event ih hevent hown hrun

theorem CleanLives.started (hn : CleanLives E S d n) : StartedOn E d n := by
  induction hn with
  | start hrun => exact .start (by rw [hrun]; rfl)
  | restart _ hrun => exact .start (by rw [hrun]; rfl)
  | handle fuel event _ _ _ hrun ih => exact .handle fuel event ih hrun

/-- The directory left behind is consistent. -/
theorem DiskInv.consistent (h : DiskInv E d n) : (d.after n.effects).Consistent E := by
  refine .of_replay ?_
  rw [h.blocks, h.ledger]
  exact h.replay

theorem CleanLives.consistent (hn : CleanLives E S d n) : d.Consistent E := by
  induction hn with
  | start => exact .of_replay rfl
  | restart hn _ ih => exact (hn.started.diskInv ih).consistent
  | handle _ _ _ _ _ _ ih => exact ih

theorem CleanLives.diskInv (hn : CleanLives E S d n) : DiskInv E d n :=
  hn.started.diskInv hn.consistent

/-! ## The map of a certificate file -/

section
variable {file : List QuorumCertificate} {h : HashBytes} {qc : QuorumCertificate}

theorem getElem?_certificateMap :
    (certificateMap file)[h]? = file.reverse.find? (·.blockHash = h) := by
  have hfold : (file.foldl (fun held qc => held.insert qc.blockHash (id qc))
      (∅ : BTreeMap HashBytes QuorumCertificate))[h]? = _ := Std.ExtTreeMap.getElem?_foldl_insert h
  unfold certificateMap
  simpa using hfold

theorem mem_of_certificateMap (hqc : (certificateMap file)[h]? = some qc) :
    qc ∈ file ∧ qc.blockHash = h := by
  rw [getElem?_certificateMap] at hqc
  exact ⟨List.mem_reverse.1 (List.mem_of_find?_eq_some hqc), by simpa using List.find?_some hqc⟩

/-- Of a canonical block the last certificate stays the last. -/
theorem getElem?_certificateMap_canonical (blocks : List Block) :
    (certificateMap (canonicalCertificates blocks file))[h]? =
      if hasBlock blocks h = true then (certificateMap file)[h]? else none := by
  rw [getElem?_certificateMap, getElem?_certificateMap, canonicalCertificates,
    ← List.filter_reverse, List.find?_filter]
  split_ifs with hcanonical
  · refine congrArg (List.find? · file.reverse) (funext fun qc => ?_)
    by_cases hkey : qc.blockHash = h
    · simp [hkey, hcanonical]
    · simp [hkey]
  · rw [List.find?_eq_none]
    rintro qc - hqc
    simp only [decide_eq_true_eq] at hqc
    exact hcanonical (hqc.2 ▸ hqc.1)

end

/-! ## What a start yields -/

/-- What a node starts with on a directory. -/
structure StartsWith (E : Env) (d : Disk) (n : Node) : Prop where
  blocks : n.blocks = d.blocks
  ledger : n.ledger = d.ledger E
  receipts : n.receipts = d.receipts
  serviceAttestations : n.serviceAttestations = attestationMap d.serviceAttestations
  quorumCertificates : n.quorumCertificates =
    certificateMap (canonicalCertificates d.blocks d.quorumCertificates)
  effects : ∀ effect ∈ n.effects, effect.ofRecords = false

theorem startNode_ok {m : Node} (h : EvidenceFiled E d.recordFiles m)
    (hhashes : SigningHashesDiffer E.hashing d.serviceAttestations)
    (hrun : (startNode E d).run (d.node E) = .ok () n) : StartsWith E d n := by
  obtain ⟨s, hevidence, seen, aggregates, seenAggregates, rfl⟩ :=
    restoreServiceEvidence_run (n := d.node E) h hhashes rfl rfl
  unfold startNode at hrun
  obtain ⟨_, s, hstart, hrun⟩ := Proc.run_bind_eq_ok hrun
  obtain rfl := (Out.ok.inj (hstart.symm.trans hevidence)).2
  obtain ⟨_, s, hcertificates, hrun⟩ := Proc.run_bind_eq_ok hrun
  obtain ⟨votes, buffered, new, rfl, hnew⟩ := restoreQuorumCertificates_ok hcertificates
  cases hrun
  refine ⟨rfl, rfl, rfl, rfl, rfl, fun effect he => ?_⟩
  have he : effect ∈ new ++ [] := he
  exact hnew effect (List.append_nil new ▸ he)

/-! ## The files of records over all lives -/

/-- Attestations are only ever appended. -/
theorem Disk.attestations_grow {effects effects' : List Effect} (h : effects <:+ effects') :
    (d.after effects).serviceAttestations <+: (d.after effects').serviceAttestations := by
  obtain ⟨new, rfl⟩ := h
  induction new with
  | nil => exact List.prefix_rfl
  | cons effect new ih =>
    refine ih.trans ?_
    cases effect with
    | write w =>
      cases w with
      | appendServiceAttestation a => exact List.prefix_append _ _
      | _ => exact List.prefix_rfl
    | _ => exact List.prefix_rfl

theorem SigningHashesDiffer.mono {H : Hashing} {file file' : List ServiceAttestation}
    (h : SigningHashesDiffer H file') (hgrows : file <+: file') : SigningHashesDiffer H file :=
  fun a ha b hb => h a (hgrows.subset ha) b (hgrows.subset hb)

/-- A node that starts finds its files in order. -/
theorem StartsWith.recordsFiled {m : Node} (h : StartsWith E d n)
    (hevidence : EvidenceFiled E d.recordFiles m) : RecordsFiled E d n := by
  have hfiles : (d.after n.effects).recordFiles = d.recordFiles := by
    have hnone : n.effects.filter Effect.ofRecords = [] :=
      List.filter_eq_nil_iff.2 fun effect he => by simp [h.effects effect he]
    rw [← Disk.after_filter, hnone]
    rfl
  have hcertificate {k : HashBytes} {qc : QuorumCertificate}
      (hqc : n.quorumCertificates[k]? = some qc) :
      (certificateMap d.quorumCertificates)[k]? = some qc := by
    rw [h.quorumCertificates, getElem?_certificateMap_canonical] at hqc
    split_ifs at hqc
    exact hqc
  refine ⟨?_, ?_, ?_⟩
  · exact (congrArg RecordFiles.receipts hfiles).trans h.receipts.symm
  · rw [hfiles]
    exact ⟨h.serviceAttestations, hevidence.file, hevidence.protocol, hevidence.aggregates⟩
  · rw [hfiles]
    exact ⟨fun k qc hqc => (mem_of_certificateMap (hcertificate hqc)).2,
      fun k qc hqc => hcertificate hqc, fun qc hqc => .inr hqc⟩

theorem evidenceFiled_empty (E : Env) :
    EvidenceFiled E ({} : Disk).recordFiles (({} : Disk).node E) :=
  ⟨rfl, .nil, fun _ => rfl, by simp [Disk.recordFiles]⟩

theorem handleEvent_effects_suffix (fuel : Nat) (event : Event)
    (hrun : ((handleEvent E fuel event).run n).state? = some n') : n.effects <:+ n'.effects :=
  ((handleEvent_moves fuel (admits_any n event trivial)).of_state? hrun
    (Source.covers_of_univ rfl rfl n)).effects_suffix

/-- **The files of records of a node that stops between two operations.** -/
theorem CleanLives.recordsFiled (hn : CleanLives E S d n)
    (hhashes : SigningHashesDiffer E.hashing (d.after n.effects).serviceAttestations) :
    RecordsFiled E d n := by
  induction hn with
  | start hrun =>
    have hempty := evidenceFiled_empty E
    exact (startNode_ok hempty (by simp [SigningHashesDiffer]) hrun).recordsFiled hempty
  | @restart d n n' _ hrun ih =>
    have hfiled := ih (hhashes.mono (Disk.attestations_grow (List.nil_suffix)))
    refine (startNode_ok hfiled.evidence ?_ hrun).recordsFiled hfiled.evidence
    exact hhashes.mono (Disk.attestations_grow (List.nil_suffix))
  | handle fuel event _ _ _ hrun ih =>
    have hsuffix := handleEvent_effects_suffix fuel event hrun
    exact (ih (hhashes.mono (Disk.attestations_grow hsuffix))).handleEvent fuel event hrun

/-! ## Valid certificates -/

/-- The certificate is valid for every block with its hash. -/
def CertificateValid (E : Env) (S : Set Block) (qc : QuorumCertificate) : Prop :=
  ∀ block, Sound E.hashing S block → block.blockHash = qc.blockHash →
    validateQuorumCertificateForBlock E qc block = .ok ()

theorem validateQuorumCertificateForBlock_congr {qc : QuorumCertificate} {block block' : Block}
    (hhash : block.blockHash = block'.blockHash) (hheader : block.header = block'.header) :
    validateQuorumCertificateForBlock E qc block =
      validateQuorumCertificateForBlock E qc block' := by
  simp only [validateQuorumCertificateForBlock, hhash, hheader,
    validateProposalVoteForBlock_congr hheader]

/-- A certificate that a step adds was checked against a known block, or is put together from votes
that were. -/
theorem Step.certificateValid (hS : CollisionFree E.hashing S) (hinv : CertInv E S n)
    (hstep : Step E A n n')
    (hvalid : ∀ (k : HashBytes) (qc : QuorumCertificate), n.quorumCertificates[k]? = some qc →
      CertificateValid E S qc) {k : HashBytes} {qc : QuorumCertificate}
    (hqc : n'.quorumCertificates[k]? = some qc) : CertificateValid E S qc := by
  rcases hstep.certificate_cases hqc with hold | ⟨-, hbuilt | ⟨known, hknown, hchecked, -⟩⟩
  · exact hvalid k qc hold
  · exact (hinv.assembledQc_valid hS hbuilt).2.2
  · intro block hblock hhash
    obtain ⟨hmem, hhash'⟩ := Node.knownBlock_eq_some hknown
    have hheader := hS.header_eq hblock (hinv.known known hmem) (hhash.trans hhash'.symm)
    rw [validateQuorumCertificateForBlock_congr (hhash.trans hhash'.symm) hheader, hchecked]

theorem Steps.certificateValid (hS : CollisionFree E.hashing S) (hinv : CertInv E S n)
    (hsteps : Steps E (arrivals S) n n') (hown : ∀ block ∈ n'.builtBlocks, block ∈ S)
    (hvalid : ∀ (k : HashBytes) (qc : QuorumCertificate), n.quorumCertificates[k]? = some qc →
      CertificateValid E S qc) :
    ∀ (k : HashBytes) (qc : QuorumCertificate), n'.quorumCertificates[k]? = some qc →
      CertificateValid E S qc := by
  induction hsteps with
  | refl => exact hvalid
  | @tail m m' hfirst hlast ih =>
    have hown' : ∀ block ∈ m.builtBlocks, block ∈ S := fun block hb =>
      hown block ((hlast.effects_suffix.filterMap _).mem hb)
    intro k qc hqc
    exact hlast.certificateValid hS (hinv.steps hS hfirst hown') (ih hown') hqc

/-- **Every held certificate is valid, and every one in the files.** -/
theorem CleanLives.certificatesValid (hS : CollisionFree E.hashing S) (hn : CleanLives E S d n)
    (hhashes : SigningHashesDiffer E.hashing (d.after n.effects).serviceAttestations) :
    (∀ qc ∈ d.quorumCertificates, CertificateValid E S qc) ∧
      ∀ (k : HashBytes) (qc : QuorumCertificate), n.quorumCertificates[k]? = some qc →
        CertificateValid E S qc := by
  have hstarted {d : Disk} {n m : Node} (hevidence : EvidenceFiled E d.recordFiles m)
      (hhashes : SigningHashesDiffer E.hashing d.serviceAttestations)
      (hrun : (startNode E d).run (d.node E) = .ok () n)
      (hold : ∀ qc ∈ d.quorumCertificates, CertificateValid E S qc) (k : HashBytes)
      (qc : QuorumCertificate) (hqc : n.quorumCertificates[k]? = some qc) :
      CertificateValid E S qc := by
    rw [(startNode_ok hevidence hhashes hrun).quorumCertificates] at hqc
    exact hold qc (List.mem_filter.1 (mem_of_certificateMap hqc).1).1
  induction hn with
  | start hrun =>
    have hempty := evidenceFiled_empty E
    exact ⟨by simp, hstarted hempty (by simp [SigningHashesDiffer]) hrun (by simp)⟩
  | @restart d n n' hn hrun ih =>
    have hhashes' : SigningHashesDiffer E.hashing (d.after n.effects).serviceAttestations :=
      hhashes.mono (Disk.attestations_grow List.nil_suffix)
    have hfiled := hn.recordsFiled hhashes'
    obtain ⟨hold, hheld⟩ := ih hhashes'
    have hfile : ∀ qc ∈ (d.after n.effects).quorumCertificates, CertificateValid E S qc :=
      fun qc hqc => (hfiled.certificates.known qc hqc).elim (hheld _ qc) (hold qc)
    exact ⟨hfile, hstarted hfiled.evidence hhashes' hrun hfile⟩
  | @handle d n n' fuel event hn hevent hown hrun ih =>
    have hsuffix := handleEvent_effects_suffix fuel event hrun
    obtain ⟨hold, hheld⟩ := ih (hhashes.mono (Disk.attestations_grow hsuffix))
    have hinv := (hn.lives.certInv hS).1
    have hsteps := (handleEvent_moves (E := E) fuel (admits_blocksFrom _ event hevent)).of_state?
      hrun hinv.covers
    exact ⟨hold, hsteps.certificateValid hS hinv hown hheld⟩

/-! ## The round trip -/

/-- The files can be loaded: the certificates of canonical blocks are held, and their votes can be
stored one after the other. -/
structure Restorable (E : Env) (d : Disk) (n : Node) : Prop where
  held : ∀ qc ∈ canonicalCertificates d.blocks d.quorumCertificates, n.hasQc qc.blockHash = true
  votes : ((canonicalCertificates d.blocks d.quorumCertificates).flatMap (·.votes)).Pairwise
    (StorableAfter (d.node E))

instance (n : Node) (x y : ProposalVote) : Decidable (StorableAfter n x y) :=
  inferInstanceAs (Decidable (x.validatorId = y.validatorId →
    if x.blockHash = y.blockHash then x.signature = y.signature
    else x.blockNumber = y.blockNumber ∨ (¬(x.epoch = y.epoch ∧ x.slot = y.slot) ∧
      n.proposalVoteBranchesAreCompatible x.blockHash y.blockHash = true)))

instance (E : Env) (d : Disk) (n : Node) : Decidable (Restorable E d n) :=
  decidable_of_iff (_ ∧ _) ⟨fun h => ⟨h.1, h.2⟩, fun h => ⟨h.held, h.votes⟩⟩

/-- If the node holds the canonical certificates of the file, they are what it holds for its
chain. -/
theorem CertificatesFiled.canonical {old : List QuorumCertificate} {files : RecordFiles}
    {blocks : List Block} (h : CertificatesFiled old files n)
    (hheld : ∀ qc ∈ canonicalCertificates blocks files.quorumCertificates,
      n.hasQc qc.blockHash = true) :
    certificateMap (canonicalCertificates blocks files.quorumCertificates) =
      n.quorumCertificates.filter fun k _ => hasBlock blocks k := by
  refine Std.ExtTreeMap.ext_getElem? fun k => ?_
  rw [getElem?_certificateMap_canonical, Std.ExtTreeMap.getElem?_filter']
  split_ifs with hcanonical
  · cases hqc : n.quorumCertificates[k]? with
    | some qc =>
      rw [h.filed k qc hqc, hcanonical]
      rfl
    | none =>
      cases hlast : (certificateMap files.quorumCertificates)[k]? with
      | none => rfl
      | some qc =>
        -- the node holds a certificate of every canonical block that has one in the file
        obtain ⟨hmem, rfl⟩ := mem_of_certificateMap hlast
        have hcertified := hheld qc (List.mem_filter.2 ⟨hmem, hcanonical⟩)
        rw [Node.hasQc, Std.ExtTreeMap.contains_eq_isSome_getElem?, hqc] at hcertified
        cases hcertified
  · cases n.quorumCertificates[k]? with
    | none => rfl
    | some qc => simp [hcanonical]

/-- **A clean restart is a round trip.** A node that stopped between two operations, with files that
can be loaded, starts again with its blocks, its ledger, its receipts and its attestations, and with
the certificates of the blocks on its chain. -/
theorem clean_restart_round_trip (E : Env) (S : Set Block) (hS : CollisionFree E.hashing S)
    (d : Disk) (n : Node) (hn : CleanLives E S d n)
    (hhashes : SigningHashesDiffer E.hashing (d.after n.effects).serviceAttestations)
    (hfiles : Restorable E (d.after n.effects) n) :
    ∃ n', (startNode E (d.after n.effects)).run ((d.after n.effects).node E) = .ok () n' ∧
      n'.blocks = n.blocks ∧ n'.ledger = n.ledger ∧ n'.receipts = n.receipts ∧
      n'.serviceAttestations = n.serviceAttestations ∧
      n'.quorumCertificates = n.quorumCertificates.filter fun h _ => hasBlock n.blocks h := by
  have hdisk := hn.diskInv
  have hfiled := hn.recordsFiled hhashes
  obtain ⟨hold, hheld⟩ := hn.certificatesValid hS hhashes
  have hknown := (hn.lives.certInv hS).1.known
  obtain ⟨s, hevidence, seen, aggregates, seenAggregates, rfl⟩ :=
    restoreServiceEvidence_run (n := (d.after n.effects).node E) hfiled.evidence hhashes rfl rfl
  have hvalid : ∀ qc ∈ (d.after n.effects).quorumCertificates, ∀ block,
      findBlock (d.after n.effects).blocks qc.blockHash = some block →
        validateQuorumCertificateForBlock E qc block = .ok () := by
    intro qc hqc block hblock
    obtain ⟨hmem, hhash⟩ := findBlock_eq_some hblock
    rw [hdisk.blocks] at hmem
    exact (hfiled.certificates.known qc hqc).elim (hheld _ qc) (hold qc) block
      (hknown block (Node.mem_knownBlocks.2 (.inl hmem))) hhash
  obtain ⟨s, hcertificates⟩ := restoreQuorumCertificates_run (E := E)
    (m := (d.after n.effects).node E) (n := { (d.after n.effects).node E with
      serviceAttestations := attestationMap (d.after n.effects).serviceAttestations,
      seenServiceAttestations := seen, serviceAggregates := aggregates,
      seenServiceAggregates := seenAggregates })
    (by simp [HeldFrom, Node.Found, Disk.node]) ⟨rfl, rfl⟩ hvalid hfiles.votes
  have hrun : (startNode E (d.after n.effects)).run ((d.after n.effects).node E) =
      .ok () (s.rebuildSeenSets E) :=
    (Proc.run_bind_of_ok hevidence).trans ((Proc.run_bind_of_ok hcertificates).trans rfl)
  have hstarts := startNode_ok hfiled.evidence hhashes hrun
  refine ⟨_, hrun, hstarts.blocks.trans hdisk.blocks, hstarts.ledger.trans hdisk.ledger,
    hstarts.receipts.trans hfiled.receipts, ?_, ?_⟩
  · exact hstarts.serviceAttestations.trans hfiled.evidence.held.symm
  · rw [hstarts.quorumCertificates, ← hdisk.blocks]
    exact hfiled.certificates.canonical hfiles.held

/-! ## Two runs

Node 1 stops after the first block was certified. In the second run two rival blocks are certified,
so that the votes for the rival block displace those for the first one; then a snapshot arrives with
a second block in slot 0, and its certificate. -/

theorem runEvents_effects_suffix {fuel : Nat} {events : List Event}
    (hrun : runEvents E fuel events n = some n') : n.effects <:+ n'.effects :=
  runEvents_preserves (Q := (n.effects <:+ ·.effects))
    (fun event _ _ _ hs h => hs.trans (handleEvent_effects_suffix fuel event h)) List.suffix_rfl hrun

theorem CleanLives.runEvents {fuel : Nat} {events : List Event} (hn : CleanLives E S d n)
    (hevents : ∀ event ∈ events, BlocksFrom S n event) (hown : ∀ block ∈ n'.builtBlocks, block ∈ S)
    (hrun : runEvents E fuel events n = some n') : CleanLives E S d n' := by
  induction events generalizing n with
  | nil =>
    cases hrun
    exact hn
  | cons event events ih =>
    obtain ⟨s, hs, hrun⟩ := Option.bind_eq_some_iff.1 hrun
    obtain ⟨hevent, hevents⟩ := List.forall_mem_cons.1 hevents
    refine ih (.handle fuel event hn hevent (fun block hb => hown block ?_) hs) hevents hrun
    exact ((runEvents_effects_suffix hrun).filterMap _).mem hb

/-- On the empty directory there is nothing to restore. -/
theorem startNode_empty (E : Env) : (startNode E {}).run (({} : Disk).node E) =
    .ok () ((({} : Disk).node E).rebuildSeenSets E) := by
  unfold startNode restoreServiceEvidence
  cases E.v2 <;> rfl

/-- The second block of slot 0. -/
def sameSlotBlock : Block := emptyBlock 2 firstBlock.blockHash 0

def sameSlotSnapshot : ChainSnapshot where
  snapshot := ((validateSnapshotBlocks (sampleEnv 1) (.fromGenesis sampleGenesis) empty_hash
    [firstBlock, sameSlotBlock]).toOption.getD (.fromGenesis sampleGenesis)).snapshot
  blocks := [firstBlock, sameSlotBlock]
  receipts := []
  proposalVotes := []

def certifiedEvents : List Event :=
  [.received 4 (.blockProposal firstBlock),
    .received 2 (.quorumCertificate (certificateOf firstBlock [1, 2, 3]))]

def sameSlotEvents : List Event :=
  [.received 4 (.blockProposal firstBlock), .received 2 (.blockProposal rivalBlock),
    .received 2 (.quorumCertificate (certificateOf firstBlock [1, 2, 3])),
    .received 2 (.quorumCertificate (certificateOf rivalBlock [1, 2, 3])),
    .received 2 (.syncResponse 2 sameSlotSnapshot),
    .received 2 (.quorumCertificate (certificateOf sameSlotBlock [1, 2, 3]))]

/-- Node 1 starts on the empty directory and handles the events. -/
def stopsAfter (events : List Event) : Option Node :=
  runEvents (sampleEnv 1) 12 events ((({} : Disk).node (sampleEnv 1)).rebuildSeenSets (sampleEnv 1))

def sameSlotBlocks : Set Block := {b | b = firstBlock ∨ b = rivalBlock ∨ b = sameSlotBlock}

theorem collisionFree_sameSlotBlocks : CollisionFree rollingHashing sameSlotBlocks where
  injective := by
    have hdistinct : (([firstBlock, rivalBlock, sameSlotBlock]).map
        (blockBodyHash rollingHashing)).Nodup := by decide +kernel
    intro b hb c hc heq
    have hmem {x : Block} (hx : x ∈ sameSlotBlocks) :
        x ∈ [firstBlock, rivalBlock, sameSlotBlock] := by
      simpa [sameSlotBlocks] using hx
    obtain rfl := List.inj_on_of_nodup_map hdistinct (hmem hb) (hmem hc) heq
    exact ⟨rfl, rfl, rfl⟩
  nonempty := by
    rintro b (rfl | rfl | rfl) <;> decide +kernel

theorem cleanLives_stopsAfter {events : List Event}
    (hevents : ∀ event ∈ events, ∀ block ∈ event.blocks, block ∈ sameSlotBlocks)
    (hown : n.builtBlocks.length = 0) (hrun : stopsAfter events = some n) :
    CleanLives (sampleEnv 1) sameSlotBlocks {} n := by
  have hstart : CleanLives (sampleEnv 1) sameSlotBlocks {} _ :=
    .start (startNode_empty (sampleEnv 1))
  refine hstart.runEvents hevents (fun block hb => ?_) hrun
  simp [List.length_eq_zero_iff.1 hown] at hb

theorem certified_stop : (stopsAfter certifiedEvents).map (fun n =>
    (n.builtBlocks.length, (({} : Disk).after n.effects).serviceAttestations.length,
      decide (Restorable (sampleEnv 1) (({} : Disk).after n.effects) n))) = some (0, 0, true) := by
  decide +kernel

theorem sameSlot_stop : (stopsAfter sameSlotEvents).map (fun n =>
    (n.builtBlocks.length, (({} : Disk).after n.effects).serviceAttestations.length,
      ((startNode (sampleEnv 1) (({} : Disk).after n.effects)).run
        ((({} : Disk).after n.effects).node (sampleEnv 1))).isOk)) = some (0, 0, false) := by
  decide +kernel

theorem gossiped_in_sameSlotBlocks :
    (∀ event ∈ certifiedEvents, ∀ block ∈ event.blocks, block ∈ sameSlotBlocks) ∧
      ∀ event ∈ sameSlotEvents, ∀ block ∈ event.blocks, block ∈ sameSlotBlocks := by
  constructor <;>
    simp [certifiedEvents, sameSlotEvents, Event.blocks, sameSlotSnapshot, sameSlotBlocks]

/-- Node 1 stops with a certified block and starts again as it was. -/
theorem certified_node_starts_again : ∃ n, CleanLives (sampleEnv 1) sameSlotBlocks {} n ∧
    ∃ n', (startNode (sampleEnv 1) (({} : Disk).after n.effects)).run
        ((({} : Disk).after n.effects).node (sampleEnv 1)) = .ok () n' ∧
      n'.blocks = n.blocks ∧ n'.ledger = n.ledger ∧ n'.receipts = n.receipts ∧
      n'.serviceAttestations = n.serviceAttestations ∧
      n'.quorumCertificates = n.quorumCertificates.filter fun h _ => hasBlock n.blocks h := by
  obtain ⟨n, hrun, hfacts⟩ := Option.map_eq_some_iff.1 certified_stop
  simp only [Prod.mk.injEq, decide_eq_true_eq] at hfacts
  obtain ⟨hown, hattestations, hfiles⟩ := hfacts
  have hn := cleanLives_stopsAfter gossiped_in_sameSlotBlocks.1 hown hrun
  refine ⟨n, hn, clean_restart_round_trip (sampleEnv 1) sameSlotBlocks
    collisionFree_sameSlotBlocks {} n hn ?_ hfiles⟩
  rw [List.length_eq_zero_iff.1 hattestations]
  simp [SigningHashesDiffer]

/-- Node 1 stops after the second run, and does not start on the files it wrote. -/
theorem own_files_do_not_load : ∃ n, CleanLives (sampleEnv 1) sameSlotBlocks {} n ∧
    CollisionFree (sampleEnv 1).hashing sameSlotBlocks ∧
    SigningHashesDiffer (sampleEnv 1).hashing (({} : Disk).after n.effects).serviceAttestations ∧
    ∀ n', (startNode (sampleEnv 1) (({} : Disk).after n.effects)).run
      ((({} : Disk).after n.effects).node (sampleEnv 1)) ≠ .ok () n' := by
  obtain ⟨n, hrun, hfacts⟩ := Option.map_eq_some_iff.1 sameSlot_stop
  simp only [Prod.mk.injEq] at hfacts
  obtain ⟨hown, hattestations, hfails⟩ := hfacts
  refine ⟨n, cleanLives_stopsAfter gossiped_in_sameSlotBlocks.2 hown hrun,
    collisionFree_sameSlotBlocks, ?_, fun n' hstarts => ?_⟩
  · rw [List.length_eq_zero_iff.1 hattestations]
    simp [SigningHashesDiffer]
  · rw [hstarts] at hfails
    cases hfails

end Entangrid
