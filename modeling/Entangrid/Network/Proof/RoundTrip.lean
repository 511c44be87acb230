import Entangrid.Network.Lane
import Entangrid.Network.Proof.Frames
import Entangrid.Node.Proof.Export
import Entangrid.Node.Start

/-!
# What a frame carries across

The writer of a frame does not look at its length, and puts the lowest four bytes of it in front; the
reader refuses a length above `MAX_FRAME_SIZE_BYTES`.

* `readFrameBytes_writeFrame_iff`, `frame_round_trip_iff`: a frame is read back exactly when its body,
  with the tag of the cipher, is within the reader's bound.
* `long_snapshot_is_not_read_back`: nodes send snapshots of their chain that are not.
-/

namespace Entangrid

/-! ## The length in front -/

/-- A reader that takes off what was written has accepted its length. -/
theorem length_le_of_readFrameBytes_writeFrame {bytes frame rest : List UInt8}
    (h : readFrameBytes (writeFrame bytes ++ rest) = .ok (some (frame, rest))) :
    bytes.length ≤ maxFrameSizeBytes := by
  have hdrop : (writeFrame bytes ++ rest).drop 4 = bytes ++ rest := by
    rw [writeFrame, List.append_assoc]
    exact List.drop_left' (length_beBytes 4 _)
  unfold readFrameBytes at h
  simp only [hdrop] at h
  split_ifs at h with hfour hmax hlength
  · cases h
  · obtain ⟨-, hrest⟩ := Prod.mk.inj (Option.some.inj (Except.ok.inj h))
    have hleft := congrArg List.length hrest
    rw [List.length_drop] at hleft
    simp only [List.length_append] at hleft hlength
    omega

/-- A frame is read back exactly when its length is within the reader's bound: above it the length is
refused or, once four bytes do not hold it, less is read than was written. -/
theorem readFrameBytes_writeFrame_iff {bytes rest : List UInt8} :
    readFrameBytes (writeFrame bytes ++ rest) = .ok (some (bytes, rest)) ↔
      bytes.length ≤ maxFrameSizeBytes :=
  ⟨length_le_of_readFrameBytes_writeFrame, fun h => readFrameBytes_writeFrame h rest⟩

/-! ## Frames of a session -/

/-- The peer reads the frame of a payload back: whatever follows on the stream, a reader at the same
counter whose session is live gets the payload and what follows, and stands at the next counter. -/
def ReadBack (A : Aead) (session : SessionMaterial) (counter : Nat) (plaintext : List UInt8) : Prop :=
  ∀ bytes nextCounter, writeApplicationFrame A session counter plaintext = .ok (bytes, nextCounter) →
    ∀ established ttl now, sessionIsExpired established ttl now = false →
      ∀ rest, ∃ wireLen,
        readApplicationFrame A session counter established ttl now (bytes ++ rest) =
          .ok (.frame plaintext wireLen, nextCounter, rest)

section
variable {A : Aead} {session : SessionMaterial}

theorem readBack_iff (hA : A.Correct) {counter nextCounter : Nat} {plaintext bytes : List UInt8}
    (hwrite : writeApplicationFrame A session counter plaintext = .ok (bytes, nextCounter)) :
    ReadBack A session counter plaintext ↔
      applicationFrameLength session plaintext ≤ maxFrameSizeBytes := by
  constructor
  · intro hback
    obtain ⟨frame, rfl, hlength, -⟩ := writeApplicationFrame_ok hA hwrite
    rw [← hlength]
    obtain ⟨wireLen, hread⟩ := hback _ _ hwrite 0 none 0 rfl []
    obtain ⟨frame', hframe, -⟩ := readApplicationFrame_ok hread
    exact length_le_of_readFrameBytes_writeFrame hframe
  · intro hfits bytes nextCounter hwrite established ttl now hlive rest
    have hread := readApplicationFrame_written hA hfits hwrite established ttl now rest
    rwa [if_neg (by simp [hlive])] at hread

end

/-- **The framing round trip.** The peer reads back exactly the frames whose body is within its bound of
`MAX_FRAME_SIZE_BYTES`: of `write_frame` the bytes themselves, of `write_application_frame` the payload
with the tag of a session that encrypts. -/
theorem frame_round_trip_iff (A : Aead) (hA : A.Correct) (session : SessionMaterial)
    (counter : Nat) (plaintext : List UInt8) {bytes : List UInt8} {nextCounter : Nat}
    (hwrite : writeApplicationFrame A session counter plaintext = .ok (bytes, nextCounter)) :
    ((∀ rest, readFrameBytes (writeFrame plaintext ++ rest) = .ok (some (plaintext, rest))) ↔
        plaintext.length ≤ maxFrameSizeBytes) ∧
      (ReadBack A session counter plaintext ↔
        applicationFrameLength session plaintext ≤ maxFrameSizeBytes) :=
  ⟨⟨fun h => readFrameBytes_writeFrame_iff.1 (h []), fun h _ => readFrameBytes_writeFrame_iff.2 h⟩,
    readBack_iff hA hwrite⟩

/-- A byte goes across, in the clear and in a session that encrypts. -/
theorem sample_frame_read_back :
    (∀ rest, readFrameBytes (writeFrame [7] ++ rest) = .ok (some ([7], rest))) ∧
      ReadBack sampleAead sampleSession 0 [7] :=
  have hwrite : writeApplicationFrame sampleAead sampleSession 0 [7] =
      .ok (writeFrame (sampleFrame 0 [7]), 1) := by
    decide
  have h := frame_round_trip_iff sampleAead sampleAead_correct sampleSession 0 [7] hwrite
  ⟨h.1.2 (by decide), h.2.2 (by decide)⟩

/-! ## A chain of any length -/

/-- Empty blocks, one in each slot from genesis on. -/
def emptyBlocks : Nat → List Block
  | 0 => []
  | k + 1 =>
    emptyBlocks k ++
      [emptyBlock (k + 1) (HashChain.tipFrom (·.blockHash) empty_hash (emptyBlocks k)) k]

@[simp] theorem length_emptyBlocks (k : Nat) : (emptyBlocks k).length = k := by
  induction k with
  | zero => rfl
  | succ k ih => simp [emptyBlocks, ih]

/-- A block without transactions changes no account. -/
theorem applyBlock_empty {H : Hashing} (crypto : CryptoBackend) {l : LedgerState} {block : Block}
    (htransactions : block.transactions = []) (hroot : l.stateRoot H = block.header.stateRoot) :
    ∃ l', l.applyBlock H crypto block = .ok l' ∧ l'.stateRoot H = l.stateRoot H ∧
      l'.snapshot.height = block.header.blockNumber := by
  refine ⟨⟨{ l.snapshot with
             tipHash := block.blockHash
             height := block.header.blockNumber
             lastSlot := block.header.slot }⟩, ?_, rfl, rfl⟩
  simp [LedgerState.applyBlock, LedgerState.applyTransactions, htransactions, hroot, rejectIf, bind,
    Except.bind]

theorem emptyBlock_transactions (blockNumber : Nat) (parentHash : HashBytes) (slot : Slot) :
    (emptyBlock blockNumber parentHash slot).transactions = [] := by
  simp only [emptyBlock, signedBlock]

theorem emptyBlock_stateRoot (blockNumber : Nat) (parentHash : HashBytes) (slot : Slot) :
    (emptyBlock blockNumber parentHash slot).header.stateRoot =
      (LedgerState.fromGenesis sampleGenesis).stateRoot rollingHashing := by
  simp only [emptyBlock, signedBlock]

theorem replay_emptyBlocks (k : Nat) : ∃ ledger,
    LedgerState.replayBlocks rollingHashing sampleCrypto sampleGenesis (emptyBlocks k) = .ok ledger ∧
      ledger.stateRoot rollingHashing =
        (LedgerState.fromGenesis sampleGenesis).stateRoot rollingHashing ∧
      ledger.snapshot.height = k := by
  induction k with
  | zero => exact ⟨_, rfl, rfl, rfl⟩
  | succ k ih =>
    obtain ⟨ledger, hreplay, hroot, -⟩ := ih
    have hempty := emptyBlock_transactions (k + 1)
      (HashChain.tipFrom (·.blockHash) empty_hash (emptyBlocks k)) k
    obtain ⟨after, happly, hafter, hheight⟩ :=
      applyBlock_empty sampleCrypto hempty (hroot.trans (emptyBlock_stateRoot _ _ _).symm)
    refine ⟨after, ?_, hafter.trans hroot, hheight⟩
    unfold emptyBlocks LedgerState.replayBlocks
    rw [applyBlocks_append hreplay]
    unfold LedgerState.applyBlocks
    rw [happly]
    rfl

section
variable {E : Env}

/-- A directory with blocks alone leaves nothing to restore. -/
theorem startNode_blocks (blocks : List Block) :
    (startNode E { blocks }).run (Disk.node E { blocks }) =
      .ok () ((Disk.node E { blocks }).rebuildSeenSets E) := by
  have hqc : (Disk.node E { blocks }).highestLocalQc = none := by
    unfold Node.highestLocalQc
    rw [List.findSome?_eq_none_iff]
    intro block _
    rfl
  have hevidence : (restoreServiceEvidence E [] []).run (Disk.node E { blocks }) =
      .ok () (Disk.node E { blocks }) := by
    unfold restoreServiceEvidence
    split_ifs <;> rfl
  have hcertificates : (restoreQuorumCertificates E []).run (Disk.node E { blocks }) =
      .ok () (Disk.node E { blocks }) := by
    unfold restoreQuorumCertificates
    refine (Proc.run_bind_of_ok (Proc.run_pure _ _)).trans ?_
    rw [Proc.run_get_bind, hqc]
    rfl
  exact (Proc.run_bind_of_ok hevidence).trans (Proc.run_bind_of_ok hcertificates)

/-- A peer that asks for a full snapshot is sent one. -/
theorem handleSyncRequest_forced {n : Node} {chain : ChainSnapshot} {peer : ValidatorId}
    (hpeer : E.config.peers.any (·.validatorId == peer) = true)
    (hchain : n.buildChainSnapshot E = .ok chain) :
    (handleSyncRequest E peer u64Max empty_hash).run n =
      .ok () (n.withEffect (.sendTo peer (.syncResponse E.me chain))) := by
  have hforced : isForceFullSnapshotHint u64Max empty_hash = true := by decide
  have hrecord : n.recordPeerSyncStatus peer u64Max empty_hash none 0 [] = n := by
    unfold Node.recordPeerSyncStatus Node.recordPeerSyncStatusWithSlot shouldRecordPeerSyncStatus
    simp [hforced]
  have hsend : (sendFullSnapshotTo E peer).run n =
      .ok () (n.withEffect (.sendTo peer (.syncResponse E.me chain))) := by
    unfold sendFullSnapshotTo
    rw [Proc.run_get_bind]
    refine (Proc.run_ofExcept_bind_of_ok hchain).trans ?_
    unfold NodeM.sendTo
    rw [if_pos hpeer]
    rfl
  unfold handleSyncRequest
  refine (Proc.run_bind_of_ok (Proc.run_modify _ _)).trans ?_
  rw [hrecord, hforced]
  simp only [if_true, hpeer]
  exact hsend

/-- The first message of a peer is let through. -/
theorem allowPeerMessage_first (E : Env) (n : Node) (peer : ValidatorId) (payload : ProtocolMessage)
    (hfirst : n.peerMessageWindows = ∅) : ∃ clockReads peerMessageWindows,
      (allowPeerMessage E peer payload).run n = .ok true { n with clockReads, peerMessageWindows } := by
  unfold allowPeerMessage
  cases classifyPeerMessage payload with
  | none => exact ⟨n.clockReads, n.peerMessageWindows, rfl⟩
  | some messageClass =>
    have hallowed (now : Nat) : ((n.peerMessageWindows.getD peer {}).allow messageClass now).2 =
        true := by
      rw [hfirst, Std.ExtTreeMap.getD_empty]
      cases messageClass <;> rfl
    refine ⟨n.clockReads + 1, n.peerMessageWindows.insert peer
      ((n.peerMessageWindows.getD peer {}).allow messageClass (E.clock n.clockReads)).1, ?_⟩
    rw [← hallowed (E.clock n.clockReads)]
    rfl

/-- A node whose file of blocks replays to its chain sends all of it to a peer that asks. -/
theorem snapshot_of_blocks_sent (E : Env) {blocks : List Block} {ledger : LedgerState}
    (peer : ValidatorId)
    (hreplay : LedgerState.replayBlocks E.hashing E.crypto E.genesis blocks = .ok ledger)
    (hheight : ledger.snapshot.height = blocks.length) (hsync : E.config.syncOnStartup = false)
    (hpeer : E.config.peers.any (·.validatorId == peer) = true) : ∃ n chain,
      Alive E n ∧ .sendTo peer (.syncResponse E.me chain) ∈ n.effects ∧ chain.blocks = blocks := by
  set started := (Disk.node E { blocks }).rebuildSeenSets E with hstarted
  obtain ⟨clockReads, peerMessageWindows, hallow⟩ := allowPeerMessage_first E
    { started with knownLivePeers := started.knownLivePeers.insert peer } peer
    (.syncRequest peer u64Max empty_hash) rfl
  set asked : Node := { started with
    knownLivePeers := started.knownLivePeers.insert peer, clockReads, peerMessageWindows } with hasked
  have hledger : asked.ledger = ledger := by
    change Disk.ledger E { blocks } = ledger
    unfold Disk.ledger
    simp only [hreplay]
  have hbarrier : asked.startupSyncBarrier = false := by
    change (E.config.syncOnStartup && _ && _ && _) = false
    rw [hsync]
    rfl
  have hblocks : asked.blocks = blocks := rfl
  have hexport : asked.syncExportPrefixLen = blocks.length := by
    unfold Node.syncExportPrefixLen Node.localSyncView
    simp [hbarrier, hledger, hheight, hblocks]
  obtain ⟨chain, hchain, heq⟩ : ∃ chain,
      asked.buildChainSnapshot E = .ok chain ∧ chain.blocks = blocks := by
    have htake : asked.blocks.take asked.syncExportPrefixLen = blocks := by
      rw [hexport, hblocks, List.take_length]
    exact ⟨_, buildChainSnapshot_ok (hledger ▸ hreplay) (htake.symm ▸ hreplay), htake⟩
  refine ⟨asked.withEffect (.sendTo peer (.syncResponse E.me chain)), chain,
    .handle 0 (.received peer (.syncRequest peer u64Max empty_hash))
      (.start { blocks } (n := started) ?_) ?_, .head _, heq⟩
  · rw [startNode_blocks]
    rfl
  · have hdispatch := handleSyncRequest_forced hpeer hchain
    have hhandle := (Proc.run_bind_of_ok (f := fun allowed => if allowed = true then
      dispatchMessage E 0 peer (.syncRequest peer u64Max empty_hash) else pure ()) hallow).trans hdispatch
    exact congrArg Out.state? hhandle

end

theorem sampleCrypto_sign (message : HashBytes) : sampleCrypto.sign 1 message = .ok
    { scheme := .devDeterministic
      bytes := HashBytes.toVec (rollingHashing.hashSecret "secret-1" message) } := by
  have hsecret : (DeterministicCryptoBackend.fromGenesis rollingHashing sampleGenesis).secret 1 =
      .ok "secret-1" := by
    decide +kernel
  change (DeterministicCryptoBackend.fromGenesis rollingHashing sampleGenesis).sign 1 message = _
  unfold DeterministicCryptoBackend.sign
  rw [hsecret]
  rfl

/-- A snapshot of 52429 blocks is sent and not read back, where `bincode` takes 32 bytes for a hash and so
at least 160 for a block. -/
theorem long_snapshot_is_not_read_back :
    ¬ ∃ L : LaneEnv, L.aead.Correct ∧ L.localValidatorId = 1 ∧ L.localCrypto = sampleCrypto ∧
      (∀ envelope responder chain, envelope.payload = .syncResponse responder chain →
        160 * chain.blocks.length ≤ (L.bincode.encode envelope).length) ∧
      ∀ n, Alive (sampleEnv 1) n → ∀ peer message, .sendTo peer message ∈ n.effects →
        ∀ envelope, signEnvelope L message = .ok envelope → ∀ session counter,
          ReadBack L.aead session counter (L.bincode.encode envelope) := by
  rintro ⟨L, hA, hid, hcrypto, hbincode, hback⟩
  obtain ⟨ledger, hreplay, -, hheight⟩ := replay_emptyBlocks 52429
  obtain ⟨n, chain, hn, hsent, hblocks⟩ := snapshot_of_blocks_sent (sampleEnv 1) 2 hreplay
    (hheight.trans (length_emptyBlocks 52429).symm) rfl rfl
  obtain ⟨envelope, hsigned, hpayload⟩ : ∃ envelope,
      signEnvelope L (.syncResponse 1 chain) = .ok envelope ∧
        envelope.payload = .syncResponse 1 chain := by
    simp only [signEnvelope, hid, hcrypto, sampleCrypto_sign]
    exact ⟨_, rfl, rfl⟩
  have hlong := hbincode envelope 1 chain hpayload
  rw [hblocks, length_emptyBlocks] at hlong
  have hread := hback n hn 2 _ hsent envelope hsigned { sampleSession with encryptFrames := false } 0
  have hfits := (readBack_iff hA rfl).1 hread
  change (L.bincode.encode envelope).length ≤ 8388608 at hfits
  omega

end Entangrid
