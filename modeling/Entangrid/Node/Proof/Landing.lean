import Entangrid.Node.Proof.Exchange
import Entangrid.Node.Proof.Replay

/-!
# Taking in a chain without `consensus_v2`

A node that is handed the export of another node of its network ends with a chain that does not stand
lower (`Grounded.takes_in`): a snapshot always, a segment where it fits the node's chain.
-/

namespace Entangrid

open LedgerState
open Proc (Always Moves Passing)

variable {E E' : Env} {S : Set Block} {A : Source} {n n' m m' : Node} {ledger : LedgerState}

/-- The rate limit lets the message pass. -/
def Admitted (E : Env) (n : Node) (sender : ValidatorId) (payload : ProtocolMessage) : Prop :=
  ((allowPeerMessage E sender payload).run n).value? = some true

instance (sender : ValidatorId) (payload : ProtocolMessage) :
    Decidable (Admitted E n sender payload) := inferInstanceAs (Decidable (_ = _))

/-- The message has a chain that the node can lay on its own: a whole one, or a segment that starts
within it and repeats the rest of it. -/
def Fits (n : Node) : ProtocolMessage → Prop
  | .syncResponse _ _ => True
  | .syncBlocks _ chain =>
    ∃ aligned, alignChainSegmentToLocalChain n.blocks n.ledger.snapshot chain = .ok aligned
  | _ => False

/-! ## Handling -/

section
variable (fuel : Nat) {v : ValidatorId}

/-- Messages that pass the rate limit are dispatched. -/
theorem received_passes {P : Node → Prop} {sender : ValidatorId} {payload : ProtocolMessage}
    (hadmitted : Admitted E n sender payload)
    (hdispatch : ∀ m, m.core = n.core →
      Moves (Passing (Acts E A) P) (dispatchMessage E fuel sender payload) m) :
    Moves (Passing (Acts E A) P) (handleEvent E fuel (.received sender payload)) n := by
  have hlive : Admitted E { n with knownLivePeers := n.knownLivePeers.insert sender } sender payload := by
    unfold Admitted allowPeerMessage at hadmitted ⊢
    split at hadmitted <;> exact hadmitted
  obtain ⟨s, hrun⟩ := Out.value?_eq_some.1 hlive
  have hbooked := ((Acts.books (E := E) (A := A)).allowPeerMessage sender payload _).ok hrun
  have hcore := ((allowPeerMessage_moves sender payload).ok hrun).1
  apply Moves.passing_bind_left (Proc.run_modify _ _) fun _ => .single (.book rfl rfl)
  apply Moves.passing_bind_left hrun hbooked
  exact hdispatch s hcore

theorem applyChainSnapshot_passes {chain : ChainSnapshot} (hoffered : chain ∈ A.snapshots n.core)
    (hblocks : A.Carries chain.blocks) (hvotes : chain.proposalVotes = [])
    (hvalid : validateChainSnapshot E chain = .ok ledger)
    (hadopt : shouldAdoptChainSnapshot E n n.ledger.snapshot chain = true) :
    Moves (Passing (Acts E A) (·.ledger = ledger)) (applyChainSnapshot E fuel chain) n := by
  refine Moves.passing_of_run_eq (n.snapshotted E ledger chain)
    (importVotesOfChain E fuel chain.proposalVotes chain.blocks) ?_
    (fun _ => .single (.applySnapshot hoffered hblocks hvalid hadopt)) rfl ?_
  · unfold applyChainSnapshot NodeM.check
    rw [Proc.run_ofExcept_bind_of_ok hvalid]
    rfl
  · apply importVotesOfChain_moves fuel (by simp [hvotes])
    intro block hb
    have hb : block ∈ (n.withSnapshot ledger chain).knownBlocks := hb
    simpa [Node.mem_knownBlocks, Node.withSnapshot] using hb

/-- A segment laid on the whole chain. -/
theorem applyChainSegment_passes (hv1 : E.v2 = false) {chain aligned : ChainSegment}
    (hblocks : A.Carries chain.blocks) (hvotes : chain.proposalVotes = [])
    (halign : alignChainSegmentToLocalChain n.blocks n.ledger.snapshot chain = .ok aligned)
    (hreceipts : validateSnapshotReceipts E aligned.receipts [] [] = .ok ())
    (hreplay : replayBlocks E.hashing E.crypto E.genesis n.blocks = .ok n.ledger)
    (hvalid : validateSnapshotBlocks E n.ledger n.ledger.snapshot.tipHash aligned.blocks = .ok ledger)
    (htarget : ledger.snapshot = aligned.targetSnapshot) :
    Moves (Passing (Acts E A) (·.ledger = ledger)) (applyChainSegment E fuel chain) n := by
  obtain ⟨hsuffix, hsame⟩ := alignChainSegment_blocks halign
  have hbase : (syncRepairBaseForSegment E chain).run n = .ok (n.blocks, n.ledger.snapshot) n := by
    unfold syncRepairBaseForSegment
    rw [Proc.run_get_bind, hv1]
    rfl
  refine Moves.passing_of_run_eq (n.segmented E ledger (n.blocks ++ aligned.blocks)) (do
    Proc.forEach aligned.receipts fun receipt => do
      let _ ← storeReceipt E receipt
      pure ()
    importVotesOfChain E fuel aligned.proposalVotes (n.blocks ++ aligned.blocks)) ?_
    (fun _ => .single (.applySegment ⟨hblocks.takes, fun block hb => hblocks.carried block
      (hsuffix.mem hb)⟩ .whole hreplay hvalid)) rfl ?_
  · unfold applyChainSegment
    rw [Proc.run_bind_of_ok hbase]
    dsimp only [NodeM.check]
    rw [Proc.run_ofExcept_bind_of_ok halign, Proc.run_ofExcept_bind_of_ok hreceipts,
      Proc.run_ofExcept_bind_of_ok hreplay, Proc.run_ofExcept_bind_of_ok hvalid,
      Proc.run_ofExcept_bind_of_ok (a := ()) (rejectIf_ok.2 (by simpa using htarget))]
    rfl
  · have hreceipts (B : Source) : Stepwise E B (Proc.forEach aligned.receipts fun receipt => do
        let _ ← storeReceipt E receipt
        pure ()) := .forEach fun _ => (storeReceipt_stepwise _).thenPure
    refine Acts.assume fun hc => Moves.bind (hreceipts A _) fun _ n₁ hrun => ?_
    apply importVotesOfChain_moves fuel (by simp [hsame, hvotes])
    intro block hb
    -- storing receipts brings in no block
    have hsteps : Steps E A.closed _ n₁ := Moves.ok (hreceipts A.closed _) hrun hc.closed
    have hb : block ∈ (n.withSegment ledger (n.blocks ++ aligned.blocks)).knownBlocks :=
      hsteps.knownBlocks id hb
    simpa [Node.mem_knownBlocks, Node.withSegment] using hb

theorem handleSyncResponse_passes (hv1 : E.v2 = false) (happends : A.appends) (hv : v ∈ A.peers)
    {chain : ChainSnapshot} (hoffered : ∀ core, chain ∈ A.snapshots core) (hblocks : A.Carries chain.blocks)
    (hvotes : chain.proposalVotes = []) (hvalid : validateChainSnapshot E chain = .ok ledger)
    (hlt : n.standing < chain.snapshot.standing) :
    Moves (Passing (Acts E A) (·.ledger = ledger)) (handleSyncResponse E fuel v chain) n := by
  have hcore : (recordResponder v chain.snapshot n).core = n.core :=
    recordPeerSyncStatusWithSlot_core _ _
  have hadopt : shouldAdoptChainSnapshot E (recordResponder v chain.snapshot n)
      (recordResponder v chain.snapshot n).ledger.snapshot chain = true := by
    rw [Node.core_ledger hcore, shouldAdoptChainSnapshot, hv1]
    exact shouldAdoptSnapshot_iff.2 hlt
  apply Moves.passing_bind_left (Proc.run_modify _ _) fun _ =>
    .single (recordPeerSyncStatusWithSlot_step hv _)
  apply Moves.read
  rw [if_pos hadopt]
  apply Moves.passing_bind_right
  · exact Moves.attempt (applyChainSnapshot_passes fuel (hoffered _) hblocks hvotes hvalid hadopt)
  · intro result s
    cases result with
    | ok _ => exact (Acts.handles hblocks.takes happends).afterSyncApplied fuel v s
    | error _ => exact Moves.pure _

theorem handleSyncBlocks_passes (hv1 : E.v2 = false) (happends : A.appends) (hv : v ∈ A.peers)
    {chain aligned : ChainSegment} (hblocks : A.Carries chain.blocks)
    (hvotes : chain.proposalVotes = [])
    (halign : alignChainSegmentToLocalChain n.blocks n.ledger.snapshot chain = .ok aligned)
    (hreceipts : validateSnapshotReceipts E aligned.receipts [] [] = .ok ())
    (hreplay : replayBlocks E.hashing E.crypto E.genesis n.blocks = .ok n.ledger)
    (hvalid : validateSnapshotBlocks E n.ledger n.ledger.snapshot.tipHash aligned.blocks = .ok ledger)
    (htarget : ledger.snapshot = aligned.targetSnapshot)
    (hlt : n.standing < chain.targetSnapshot.standing) :
    Moves (Passing (Acts E A) (·.ledger = ledger)) (handleSyncBlocks E fuel v chain) n := by
  have hcore : (recordResponder v chain.targetSnapshot n).core = n.core :=
    recordPeerSyncStatusWithSlot_core _ _
  have hledger := Node.core_ledger hcore
  have hown := Node.core_blocks hcore
  have hadopt : shouldAdoptChainSegment E (recordResponder v chain.targetSnapshot n)
      (recordResponder v chain.targetSnapshot n).ledger.snapshot chain = true := by
    rw [hledger, shouldAdoptChainSegment, if_pos (shouldAdoptSnapshot_iff.2 hlt)]
  rw [← hledger, ← hown] at halign
  rw [← hledger, ← hown] at hreplay
  rw [← hledger] at hvalid
  apply Moves.passing_bind_left (Proc.run_modify _ _) fun _ =>
    .single (recordPeerSyncStatusWithSlot_step hv _)
  apply Moves.read
  rw [hadopt]
  apply Moves.passing_bind_right
  · exact Moves.attempt
      (applyChainSegment_passes fuel hv1 hblocks hvotes halign hreceipts hreplay hvalid htarget)
  · intro result s
    cases result with
    | ok _ => exact (Acts.handles hblocks.takes happends).afterSyncApplied fuel v s
    | error _ =>
      have hfailed : Stepwise E A (Proc.modify (·.recordSyncRepairFailure v)) :=
        .book fun _ => ⟨rfl, rfl⟩
      exact hfailed.bind (fun _ => .logged (Acts.books.requestSyncFrom v)) s

end

/-! ## Segments -/

/-- A segment that fits continues the sender's chain behind what the receiver has of it. -/
theorem aligned_blocks {H : Hashing} (hS : CollisionFree H S) {bs ls : List Block}
    {localSnapshot : StateSnapshot} {seg aligned : ChainSegment} (hbs : ChainOf H S bs)
    (hls : ChainOf H S ls) (hheight : localSnapshot.height = ls.length)
    (htip : localSnapshot.tipHash = tipFrom empty_hash ls) (hk : seg.baseHeight ≤ bs.length)
    (hbase : seg.baseTipHash = tipFrom empty_hash (bs.take seg.baseHeight))
    (hblocks : seg.blocks = bs.drop seg.baseHeight)
    (h : alignChainSegmentToLocalChain ls localSnapshot seg = .ok aligned) :
    ls.length ≤ bs.length ∧ ls.map (·.blockHash) = (bs.take ls.length).map (·.blockHash) ∧
      aligned.blocks = bs.drop ls.length ∧ aligned.receipts = seg.receipts ∧
      aligned.targetSnapshot = seg.targetSnapshot := by
  obtain ⟨hle, htake, henough, hoverlap, rfl⟩ := (align_eq_ok hheight htip).1 h
  rw [hblocks, List.length_drop] at henough
  rw [hblocks] at hoverlap
  have hcount : seg.baseHeight + (ls.length - seg.baseHeight) = ls.length := by omega
  have hfirst := map_hash_take_eq hS hbs hls hk hle (htake.trans hbase)
  have hrest : (ls.drop seg.baseHeight).map (·.blockHash) =
      ((bs.drop seg.baseHeight).take (ls.length - seg.baseHeight)).map (·.blockHash) := by
    refine (hoverlap.eq_of_length ?_).symm
    simp only [List.length_map, List.length_take, List.length_drop]
    omega
  refine ⟨by omega, ?_, ?_, rfl, rfl⟩
  · calc ls.map (·.blockHash)
        = (ls.take seg.baseHeight).map (·.blockHash) ++
            (ls.drop seg.baseHeight).map (·.blockHash) := by
          rw [← List.map_append, List.take_append_drop]
      _ = (bs.take ls.length).map (·.blockHash) := by
          rw [hfirst, hrest, ← List.map_append, ← List.take_add, hcount]
  · show seg.blocks.drop _ = _
    rw [hblocks, List.drop_drop, hcount]

theorem Env.SameNetwork.applyBlocks_eq (h : E.SameNetwork E') (l : LedgerState)
    (chain : List Block) : l.applyBlocks E'.hashing E'.crypto chain =
      l.applyBlocks E.hashing E.crypto chain := by
  induction chain generalizing l with
  | nil => rfl
  | cons block chain ih => simp only [applyBlocks, h.applyBlock_eq, ih]

theorem ReceiptsSound.sublist {receipts receipts' : List RelayReceipt}
    (h : ReceiptsSound E receipts) (hsub : receipts'.Sublist receipts) : ReceiptsSound E receipts' where
  valid receipt hr := h.valid receipt (hsub.subset hr)
  distinct := h.distinct.sublist (hsub.map _)
  distinctEvents := h.distinctEvents.sublist (hsub.map _)

theorem StoreInv.chainOf (h : StoreInv E n) (harrived : ∀ b ∈ n.knownBlocks, b ∈ S) :
    ChainOf E.hashing S n.blocks := by
  refine ⟨h.linked, fun b hb => ?_⟩
  have hb' := Node.mem_knownBlocks.2 (.inl hb)
  exact ⟨harrived b hb', h.hashed b hb'⟩

/-! ## One exchange -/

/-- A grounded node whose blocks and receipts its peers accept. -/
structure Exporter (E : Env) (S : Set Block) (n : Node) : Prop extends Grounded E S n where
  importable : ImportInv E n
  receipts : ReceiptsSound E n.receipts

section
variable (hpeer : E.SameNetwork E') (hS : CollisionFree E.hashing S)
  (hlast : ∀ b ∈ S, b.header.blockNumber + 1 < 2 ^ 64)
include hpeer hS

/-- On a node that has the beginning of the chain, the rest is validated and leads to the same
ledger. -/
theorem Exporter.rest_valid (hn : Exporter E S n) (hm : NumberInv E' S m)
    (hmap : m.blocks.map (·.blockHash) = (n.blocks.take m.blocks.length).map (·.blockHash)) :
    validateSnapshotBlocks E' m.ledger m.ledger.snapshot.tipHash (n.blocks.drop m.blocks.length) =
      .ok n.ledger := by
  obtain ⟨hlinked, hchain⟩ := hn.numbered.toStoreInv.chainOf hn.numbered.arrived
  obtain ⟨-, hchain'⟩ := hm.toStoreInv.chainOf hm.arrived
  rw [hpeer.hashing] at hchain'
  have hsplit := List.take_append_drop m.blocks.length n.blocks
  have hreplay := hn.numbered.replay
  rw [← hsplit] at hreplay hlinked
  obtain ⟨hlinkedTake, hlinkedDrop⟩ := HashChain.linkedFrom_append.1 hlinked
  obtain ⟨l, htake, hdrop⟩ := applyBlocks_append_ok hreplay
  have hbefore (b : Block) (hb : b ∈ n.blocks.take m.blocks.length) : Sound E.hashing S b :=
    hchain b (List.mem_of_mem_take hb)
  have hafter (b : Block) (hb : b ∈ n.blocks.drop m.blocks.length) : b ∈ n.knownBlocks :=
    Node.mem_knownBlocks.2 (.inl (List.mem_of_mem_drop hb))
  -- both replay the beginning to one ledger
  have hledger : m.ledger = l := by
    have hown : (fromGenesis E.genesis).applyBlocks E.hashing E.crypto m.blocks = .ok m.ledger := by
      rw [← hpeer.applyBlocks_eq, ← hpeer.genesis]
      exact hm.replay
    rw [hS.applyBlocks_eq hchain' hbefore hmap] at hown
    exact Except.ok.inj (hown.symm.trans htake)
  have htip : m.ledger.snapshot.tipHash = tipFrom empty_hash (n.blocks.take m.blocks.length) :=
    hm.tip.trans (HashChain.tipFrom_congr hmap)
  have hat := (AtTip.genesis (E := E) hS).replayed hS hbefore htake
  rw [hpeer.validateSnapshotBlocks_eq, htip, hledger]
  refine validateSnapshotBlocks_of_replay hS hat ?_ hlinkedDrop (fun b hb => ?_) (fun b hb => ?_) hdrop
  · cases hlast : (n.blocks.take m.blocks.length).getLast? with
    | none =>
      rw [List.getLast?_eq_none_iff.1 hlast]
      exact .inl rfl
    | some b =>
      have hb := hbefore b (List.mem_of_getLast? hlast)
      have htail : tipFrom empty_hash (n.blocks.take m.blocks.length) =
          ((n.blocks.take m.blocks.length).getLast?.map (·.blockHash)).getD empty_hash :=
        (HashChain.getLast?_map_getD _).symm
      rw [hlast] at htail
      exact .inr ⟨b, hb.1, hb.2, htail.symm⟩
  · exact ⟨hn.numbered.arrived b (hafter b hb), hn.importable.known b (hafter b hb)⟩
  · exact hn.numbered.known b (hafter b hb)

omit hpeer in
/-- The export of the whole chain leads to the ledger of the node. -/
theorem Exporter.snapshot_valid (hpeer : E.SameNetwork E') (hn : Exporter E S n) :
    validateChainSnapshot E'
      { snapshot := n.ledger.snapshot, blocks := n.blocks, receipts := n.receipts
        proposalVotes := [] } = .ok n.ledger := by
  obtain ⟨ledger, hvalid, hreplay⟩ :=
    hn.numbered.validateSnapshotBlocks hS hn.importable n.blocks.length
  rw [List.take_length] at hvalid hreplay
  obtain rfl := Except.ok.inj (hreplay.symm.trans hn.numbered.replay)
  have hreceipts : validateSnapshotReceipts E n.receipts [] [] = .ok () :=
    validateSnapshotReceipts_ok.2 ⟨hn.receipts, by simp, by simp⟩
  rw [hpeer.validateChainSnapshot_eq]
  simp [validateChainSnapshot, hreceipts, hvalid, rejectIf, bind, Except.bind]

end

section
variable (hv1 : E'.v2 = false) (hS : CollisionFree E'.hashing S)
  (hlast : ∀ b ∈ S, b.header.blockNumber + 1 < 2 ^ 64) (hvalidators : E'.genesis.validators ≠ [])
  (hown : ∀ b ∈ m'.builtBlocks, b ∈ S) (hsigned : m'.signedVotes = [])
include hv1 hS hlast hvalidators hown hsigned

/-- A node that had a ledger on the way does not stand lower in the end. -/
theorem Grounded.standing_of_passing (hm : Grounded E' S m)
    (h : Passing (Acts E' (plainSource E' S)) (·.ledger = ledger) m m') :
    ledger.snapshot.standing ≤ m'.standing := by
  obtain ⟨t, hbefore, rfl, hafter⟩ := h
  have hcovers := (hbefore hm.covers).covers hm.covers
  have hsuffix := (hafter hcovers).effects_suffix
  have hown' (b : Block) (hb : b ∈ t.builtBlocks) : b ∈ S := hown b ((hsuffix.filterMap _).mem hb)
  have hsigned' : t.signedVotes = [] := by
    have hvotes : t.signedVotes <:+ m'.signedVotes := hsuffix.filterMap _
    rw [hsigned] at hvotes
    exact List.suffix_nil.1 hvotes
  obtain ⟨ht, -⟩ := Rises.of_steps hv1 hS hlast hvalidators hown' hsigned' (hbefore hm.covers) hm
  exact (Rises.of_steps hv1 hS hlast hvalidators hown hsigned (hafter hcovers) ht).2

/-- **Whoever takes in an export catches up with the exporter.** -/
theorem Grounded.takes_in (hpeer : E.SameNetwork E') (hn : Exporter E S n) (hm : Grounded E' S m)
    {fuel : Nat} {sender : ValidatorId} {payload : ProtocolMessage} (hexport : Exports E n payload)
    (hadmitted : Admitted E' m sender payload) (hfits : Fits m payload)
    (hrun : ((handleEvent E' fuel (.received sender payload)).run m).state? = some m')
    (hrises : m.standing ≤ m'.standing) : n.standing ≤ m'.standing := by
  rcases le_or_gt n.standing m.standing with hle | hlt
  · exact hle.trans hrises
  have hcarries {blocks : List Block} (h : ∀ b ∈ blocks, b ∈ n.blocks) :
      (plainSource E' S).Carries blocks :=
    ⟨trivial, fun b hb => hn.numbered.arrived b (Node.mem_knownBlocks.2 (.inl (h b hb)))⟩
  have hpeers (v : ValidatorId) : v ∈ (plainSource E' S).peers := trivial
  have hS' : CollisionFree E.hashing S := by
    rw [← hpeer.hashing]
    exact hS
  have hheight := hn.numbered.height_eq hlast
  refine hm.standing_of_passing hv1 hS hlast hvalidators hown hsigned
    (Moves.of_state? (received_passes fuel hadmitted fun s hcore => ?_) hrun)
  have hledger := Node.core_ledger hcore
  have hlt' : s.standing < n.ledger.snapshot.standing := by
    rw [Node.standing, hledger]
    exact hlt
  cases payload with
  | syncResponse v chain =>
    obtain rfl := hn.inert.snapshot_of_exports hheight hexport
    exact handleSyncResponse_passes fuel hv1 trivial (hpeers v) (fun _ => trivial) (hcarries fun _ hb => hb) rfl
      (hn.snapshot_valid hS' hpeer) hlt'
  | syncBlocks v chain =>
    obtain ⟨aligned, halign⟩ := hfits
    obtain ⟨htarget, hk, hbase, hblocks, hreceipts, hvotes⟩ :=
      hn.inert.segment_of_exports hheight hexport
    obtain ⟨-, hmap, hrest, hreceipts', htarget'⟩ := aligned_blocks hS
      (hpeer.hashing ▸ hn.numbered.toStoreInv.chainOf hn.numbered.arrived)
      (hm.numbered.toStoreInv.chainOf hm.numbered.arrived) (hm.numbered.height_eq hlast)
      hm.numbered.tip hk.le hbase hblocks halign
    have hvalid := hn.rest_valid hpeer hS' hm.numbered hmap
    rw [← hrest, ← hledger] at hvalid
    rw [← hledger, ← Node.core_blocks hcore] at halign
    refine handleSyncBlocks_passes fuel hv1 trivial (hpeers v) (hcarries fun b hb => ?_) hvotes halign ?_ ?_
      hvalid ?_ ?_
    · rw [hblocks] at hb
      exact List.mem_of_mem_drop hb
    · rw [hreceipts', hpeer.validateSnapshotReceipts_eq]
      exact validateSnapshotReceipts_ok.2 ⟨hn.receipts.sublist hreceipts, by simp, by simp⟩
    · rw [hledger, Node.core_blocks hcore]
      exact hm.numbered.replay
    · rw [htarget', htarget]
    · rw [htarget]
      exact hlt'
  | _ => exact hfits.elim

end

end Entangrid
