import Entangrid.Node.Proof.Headers
import Entangrid.Node.Proof.Stores
import Entangrid.Node.Proof.Witnessing

/-!
# The receipt store

However a receipt gets into the store of a node, its signature and assignment were checked, and no two
receipts share a hash or are about the same event. `validate_snapshot_receipts` asks for just that.

* `validateSnapshotReceipts_ok`: what the check of a snapshot's receipts says.
* `receipts_are_valid_and_indexed`: the store of every reachable state, with its seen sets.
-/

namespace Entangrid

variable {E : Env} {A : Source} {n n' : Node}

/-- A receipt signed by its witness, who was assigned to it. -/
structure ReceiptValid (E : Env) (receipt : RelayReceipt) : Prop where
  signed : E.crypto.verify receipt.witnessValidatorId (receiptSigningHash E.hashing receipt)
    receipt.signature = .ok true
  assigned : E.consensus.validateReceiptAssignment receipt = .ok ()

def exactHash (E : Env) (receipt : RelayReceipt) : HashBytes :=
  E.hashing.canonicalHash (.receipt receipt)

/-- Valid receipts, no two of them with one hash or about one event. -/
structure ReceiptsSound (E : Env) (receipts : List RelayReceipt) : Prop where
  valid : ∀ receipt ∈ receipts, ReceiptValid E receipt
  distinct : (receipts.map (exactHash E)).Nodup
  distinctEvents : (receipts.map (receiptEventHash E.hashing)).Nodup

/-- `validate_snapshot_receipts` passes the sound lists, up to the hashes it has seen. -/
theorem validateSnapshotReceipts_ok {receipts : List RelayReceipt} {exacts events : List HashBytes} :
    validateSnapshotReceipts E receipts exacts events = .ok () ↔ ReceiptsSound E receipts ∧
      (∀ receipt ∈ receipts, exactHash E receipt ∉ exacts) ∧
      ∀ receipt ∈ receipts, receiptEventHash E.hashing receipt ∉ events := by
  induction receipts generalizing exacts events with
  | nil => exact ⟨fun _ => ⟨⟨by simp, by simp, by simp⟩, by simp, by simp⟩, fun _ => rfl⟩
  | cons receipt receipts ih =>
    simp only [validateSnapshotReceipts, except_bind_ok, rejectIf_ok, verifySignature_ok, ih]
    constructor
    · rintro ⟨_, hexact, _, hevent, _, hsigned, _, hassigned, hsound, hexacts, hevents⟩
      have hexact' : exactHash E receipt ∉ exacts := by simpa [exactHash] using hexact
      have hevent' : receiptEventHash E.hashing receipt ∉ events := by simpa using hevent
      refine ⟨⟨List.forall_mem_cons.2 ⟨⟨hsigned, hassigned⟩, hsound.valid⟩, ?_, ?_⟩,
        List.forall_mem_cons.2 ⟨hexact', fun r hr hmem => hexacts r hr (.tail _ hmem)⟩,
        List.forall_mem_cons.2 ⟨hevent', fun r hr hmem => hevents r hr (.tail _ hmem)⟩⟩
      · refine List.nodup_cons.2 ⟨fun hmem => ?_, hsound.distinct⟩
        obtain ⟨r, hr, heq⟩ := List.mem_map.1 hmem
        exact hexacts r hr (heq ▸ .head _)
      · refine List.nodup_cons.2 ⟨fun hmem => ?_, hsound.distinctEvents⟩
        obtain ⟨r, hr, heq⟩ := List.mem_map.1 hmem
        exact hevents r hr (heq ▸ .head _)
    · rintro ⟨hsound, hexacts, hevents⟩
      obtain ⟨hvalid, hrest⟩ := List.forall_mem_cons.1 hsound.valid
      obtain ⟨hnew, hdistinct⟩ := List.nodup_cons.1 hsound.distinct
      obtain ⟨hnewEvent, hdistinctEvents⟩ := List.nodup_cons.1 hsound.distinctEvents
      refine ⟨(), by simpa [exactHash] using hexacts receipt (.head _), (), by
        simpa using hevents receipt (.head _), (), hvalid.signed, (), hvalid.assigned,
        ⟨hrest, hdistinct, hdistinctEvents⟩, fun r hr hmem => ?_, fun r hr hmem => ?_⟩
      · rcases List.mem_cons.1 hmem with heq | hmem
        · exact hnew (List.mem_map.2 ⟨r, hr, heq⟩)
        · exact hexacts r (.tail _ hr) hmem
      · rcases List.mem_cons.1 hmem with heq | hmem
        · exact hnewEvent (List.mem_map.2 ⟨r, hr, heq⟩)
        · exact hevents r (.tail _ hr) hmem

/-! ## Persisting -/

/-- A sound store whose seen sets hold the hashes of its receipts. -/
structure ReceiptBook.Sound (E : Env) (book : ReceiptBook) : Prop extends
    ReceiptsSound E book.receipts where
  seen : ∀ receipt ∈ book.receipts, exactHash E receipt ∈ book.seenReceipts
  seenEvents : ∀ receipt ∈ book.receipts,
    receiptEventHash E.hashing receipt ∈ book.seenReceiptEvents

/-- A value whose image was not seen keeps the images distinct. -/
theorem nodup_map_concat {α : Type} {f : α → HashBytes} {xs : List α} {y : α}
    {seen : BTreeSet HashBytes} (hdistinct : (xs.map f).Nodup) (hseen : ∀ x ∈ xs, f x ∈ seen)
    (hnew : f y ∉ seen) : ((xs ++ [y]).map f).Nodup := by
  rw [List.map_append, List.map_singleton]
  refine (List.perm_append_singleton _ _).nodup_iff.2 (List.nodup_cons.2 ⟨fun hmem => ?_, hdistinct⟩)
  obtain ⟨x, hx, heq⟩ := List.mem_map.1 hmem
  exact hnew (heq ▸ hseen x hx)

/-- The images of a list grown by one value are in the set grown by its image. -/
theorem mem_insert_of_concat {α : Type} {f : α → HashBytes} {xs : List α} {y : α}
    {seen : BTreeSet HashBytes} (hseen : ∀ x ∈ xs, f x ∈ seen) :
    ∀ x ∈ xs ++ [y], f x ∈ seen.insert (f y) := by
  intro x hx
  rw [Std.ExtTreeSet.mem_insert]
  rcases List.mem_append.1 hx with hx | hx
  · exact .inr (hseen x hx)
  · rw [List.mem_singleton.1 hx]
    exact .inl (Std.ReflCmp.compare_self)

theorem ReceiptBook.Sound.persist {book : ReceiptBook} (h : book.Sound E) {receipt : RelayReceipt}
    (hvalid : ReceiptValid E receipt) : (book.persist E receipt).Sound E := by
  unfold ReceiptBook.persist
  split_ifs with hseen hevent
  · exact h
  · exact h
  · exact
      { valid := fun r hr => by
          rcases List.mem_append.1 hr with hr | hr
          · exact h.valid r hr
          · exact List.mem_singleton.1 hr ▸ hvalid
        distinct := nodup_map_concat h.distinct h.seen (by simpa [exactHash] using hseen)
        distinctEvents := nodup_map_concat h.distinctEvents h.seenEvents (by simpa using hevent)
        seen := mem_insert_of_concat h.seen
        seenEvents := mem_insert_of_concat h.seenEvents }

theorem ReceiptBook.Sound.persistAll {book : ReceiptBook} (h : book.Sound E)
    {receipts : List RelayReceipt} (hvalid : ∀ receipt ∈ receipts, ReceiptValid E receipt) :
    (receipts.foldl (ReceiptBook.persist E) book).Sound E := by
  induction receipts generalizing book with
  | nil => exact h
  | cons receipt receipts ih =>
    obtain ⟨hreceipt, hrest⟩ := List.forall_mem_cons.1 hvalid
    exact ih (h.persist hreceipt) hrest

/-- `rebuild_seen_sets` makes the seen sets those of the receipts. -/
theorem ReceiptsSound.rebuilt (h : ReceiptsSound E n.receipts) :
    (n.rebuildSeenSets E).receiptBook.Sound E where
  toReceiptsSound := h
  seen receipt hr := by
    refine Std.ExtTreeSet.mem_ofList.2 ?_
    simpa [exactHash] using ⟨receipt, hr, rfl⟩
  seenEvents receipt hr := by
    refine Std.ExtTreeSet.mem_ofList.2 ?_
    simpa using ⟨receipt, hr, rfl⟩

/-! ## Commitment bundles -/

/-- The receipts of a bundle are checked like those of a snapshot, and have to be the commitment's. -/
theorem validateCommitmentReceipts_ok {commitment : TopologyCommitment}
    {receipts : List RelayReceipt} {exacts events : List HashBytes} :
    validateCommitmentReceipts E commitment receipts exacts events = .ok () ↔
      validateSnapshotReceipts E receipts exacts events = .ok () ∧ ∀ receipt ∈ receipts,
        receipt.sourceValidatorId = commitment.validatorId ∧ receipt.epoch = commitment.epoch := by
  induction receipts generalizing exacts events with
  | nil => exact ⟨fun _ => ⟨rfl, by simp⟩, fun _ => rfl⟩
  | cons receipt receipts ih =>
    simp only [validateCommitmentReceipts, validateSnapshotReceipts, except_bind_ok, rejectIf_ok,
      verifySignature_ok, ih, List.forall_mem_cons, bne_eq_false_iff_eq, exists_const]
    constructor
    · rintro ⟨hsource, hepoch, hsigned, u, hassigned, hexact, hevent, hrest, hown⟩
      exact ⟨⟨hexact, hevent, hsigned, u, hassigned, hrest⟩, ⟨hsource, hepoch⟩, hown⟩
    · rintro ⟨⟨hexact, hevent, hsigned, u, hassigned, hrest⟩, ⟨hsource, hepoch⟩, hown⟩
      exact ⟨hsource, hepoch, hsigned, u, hassigned, hexact, hevent, hrest, hown⟩

/-- The bundle of a block whose commitment was checked, with whatever weights, has valid receipts. -/
theorem validateBlockCommitment_receipts {weights : ServiceScoreWeights} {block : Block}
    (h : validateBlockCommitment E weights block = .ok ()) :
    ∀ receipt ∈ block.commitmentReceipts, ReceiptValid E receipt := by
  obtain ⟨_, hnone, h⟩ := except_bind_ok.1 h
  split at h
  · obtain ⟨_, hreceipts, -⟩ := except_bind_ok.1 h
    exact (validateSnapshotReceipts_ok.1 (validateCommitmentReceipts_ok.1 hreceipts).1).1.valid
  · next hcommitment =>
    have hempty : block.commitmentReceipts = [] := by simpa [rejectIf_ok, hcommitment] using hnone
    simp [hempty]

theorem receiptValid_of_verdict {receipt : RelayReceipt} (h : receiptVerdict E receipt = .ok ()) :
    ReceiptValid E receipt := by
  unfold receiptVerdict at h
  split at h
  · simp at h
  split at h
  · simp at h
  · simp at h
  · next hsigned =>
    split at h
    · simp at h
    · next hassigned => exact ⟨hsigned, hassigned⟩

/-- Whichever way a block gets in, its commitment was checked. -/
theorem bundle_of_new {block : Block} (h : A.New E n block) :
    ∀ receipt ∈ block.commitmentReceipts, ReceiptValid E receipt := by
  rcases h with ⟨-, hvalid⟩ | ⟨-, _, _, _, _, _, -, -, hchain, -, hmem⟩
  · simp only [validateReceivedBlock, except_bind_ok] at hvalid
    obtain ⟨_, -, _, -, _, -, _, -, _, -, _, hcommitment, -⟩ := hvalid
    exact validateBlockCommitment_receipts hcommitment
  · obtain ⟨l, parent, hvalid⟩ := validateSnapshotBlocks_mem hchain hmem
    simp only [validateSnapshotBlock, except_bind_ok] at hvalid
    obtain ⟨_, -, _, -, _, -, _, -, _, -, _, -, hcommitment⟩ := hvalid
    exact validateBlockCommitment_receipts hcommitment

/-! ## Steps -/

/-- The receipt store is sound, and so is what known blocks bring. -/
structure ReceiptInv (E : Env) (n : Node) : Prop where
  book : n.receiptBook.Sound E
  bundles : ∀ block ∈ n.knownBlocks, ∀ receipt ∈ block.commitmentReceipts, ReceiptValid E receipt

/-- Two books with one store; the effects do not matter. -/
structure ReceiptBook.SameStore (book book' : ReceiptBook) : Prop where
  receipts : book.receipts = book'.receipts := by rfl
  seen : book.seenReceipts = book'.seenReceipts := by rfl
  seenEvents : book.seenReceiptEvents = book'.seenReceiptEvents := by rfl

theorem ReceiptBook.Sound.of_same {book book' : ReceiptBook} (h : book'.Sound E)
    (hsame : book.SameStore book') : book.Sound E := by
  refine ⟨?_, ?_, ?_⟩
  · rw [hsame.receipts]
    exact h.toReceiptsSound
  · rw [hsame.receipts, hsame.seen]
    exact h.seen
  · rw [hsame.receipts, hsame.seenEvents]
    exact h.seenEvents

/-- A step persists valid receipts, or takes a sound list and rebuilds the seen sets. -/
theorem ReceiptInv.book_cases (h : ReceiptInv E n) (hstep : Step E A n n') :
    (∃ receipts : List RelayReceipt, (∀ receipt ∈ receipts, ReceiptValid E receipt) ∧
      n'.receiptBook.SameStore (receipts.foldl (ReceiptBook.persist E) n.receiptBook)) ∨
    ∃ m : Node, ReceiptsSound E m.receipts ∧
      n'.receiptBook.SameStore (m.rebuildSeenSets E).receiptBook := by
  cases hstep with
  | book _ hrecords =>
    exact .inl ⟨[], by simp, congrArg Records.receipts hrecords,
      congrArg Records.seenReceipts hrecords, congrArg Records.seenReceiptEvents hrecords⟩
  | storeReceipt receipt hverdict =>
    exact .inl ⟨[receipt], by simpa using receiptValid_of_verdict hverdict, {}⟩
  | commitmentReceipts block hblock =>
    exact .inl ⟨_, h.bundles block (Node.mem_knownBlocks.2 (.inl hblock)), {}⟩
  | replaceVotes | storeVote | bufferVote =>
    rw [Node.withoutVotes_eq]
    exact .inl ⟨[], by simp, {}⟩
  | @adopt chain ledger hsource =>
    have hvalid : ∀ r ∈ chain.flatMap (·.commitmentReceipts), ReceiptValid E r := fun r hr => by
      obtain ⟨block, hblock, hr⟩ := List.mem_flatMap.1 hr
      exact (hsource.block hblock).elim (h.bundles block · r hr) (bundle_of_new · r hr)
    have hsound := h.book.persistAll hvalid
    refine .inr ⟨(n.withCanonicalChain ledger chain).withCommitmentReceipts E
      (chain.flatMap (·.commitmentReceipts)), ?_, {}⟩
    exact hsound.toReceiptsSound
  | @applySnapshot chain ledger _ _ hvalid =>
    have hsound := (validateSnapshotReceipts_ok.1 (validateChainSnapshot_blocks hvalid).1).1
    exact .inr ⟨n.withSnapshot ledger chain, hsound, {}⟩
  | @applySegment base blocks _ _ ledger =>
    exact .inr ⟨n.withSegment ledger (base ++ blocks), h.book.toReceiptsSound, {}⟩
  | _ => exact .inl ⟨[], by simp, {}⟩

theorem ReceiptInv.book_step (h : ReceiptInv E n) (hstep : Step E A n n') :
    n'.receiptBook.Sound E := by
  rcases h.book_cases hstep with ⟨receipts, hvalid, hsame⟩ | ⟨m, hsound, hsame⟩
  · exact (h.book.persistAll hvalid).of_same hsame
  · exact hsound.rebuilt.of_same hsame

theorem ReceiptInv.step (h : ReceiptInv E n) (hstep : Step E A n n') : ReceiptInv E n' where
  book := h.book_step hstep
  bundles := hstep.forall_known (fun _ hb => bundle_of_new hb) h.bundles

theorem Reachable.receiptInv (hn : Reachable E AnyEvent n) : ReceiptInv E n :=
  hn.invariant admits_any
    (fun slot => ⟨⟨⟨by simp [Node.receiptBook, Node.fresh], by simp [Node.receiptBook, Node.fresh],
        by simp [Node.receiptBook, Node.fresh]⟩, by simp [Node.receiptBook, Node.fresh],
        by simp [Node.receiptBook, Node.fresh]⟩, by simp [Node.knownBlocks, Node.fresh]⟩)
    fun _ _ _ h hstep => h.step hstep

/-- The receipts of every reachable state would pass as those of a snapshot. -/
theorem Reachable.receiptStore (hn : Reachable E AnyEvent n) :
    validateSnapshotReceipts E n.receipts [] [] = .ok () :=
  validateSnapshotReceipts_ok.2 ⟨hn.receiptInv.book.toReceiptsSound, by simp, by simp⟩

/-! ## The seen sets -/

/-- The seen sets are the hash sets of the receipts. -/
structure ReceiptBook.Indexed (E : Env) (book : ReceiptBook) : Prop where
  seen : ∀ h, h ∈ book.seenReceipts ↔ h ∈ book.receipts.map (exactHash E)
  seenEvents : ∀ h, h ∈ book.seenReceiptEvents ↔
    h ∈ book.receipts.map (receiptEventHash E.hashing)

theorem mem_insert_iff_concat {α : Type} {f : α → HashBytes} {xs : List α} {y : α}
    {seen : BTreeSet HashBytes} (hseen : ∀ h, h ∈ seen ↔ h ∈ xs.map f) (h : HashBytes) :
    h ∈ seen.insert (f y) ↔ h ∈ (xs ++ [y]).map f := by
  rw [Std.ExtTreeSet.mem_insert, hseen, List.map_append, List.mem_append, List.map_singleton,
    List.mem_singleton, Std.LawfulEqCmp.compare_eq_iff_eq, or_comm, eq_comm]

theorem ReceiptBook.Indexed.persistAll {book : ReceiptBook} (h : book.Indexed E)
    (receipts : List RelayReceipt) : (receipts.foldl (ReceiptBook.persist E) book).Indexed E := by
  induction receipts generalizing book with
  | nil => exact h
  | cons receipt receipts ih =>
    refine ih ?_
    unfold ReceiptBook.persist
    split_ifs
    · exact h
    · exact h
    · exact ⟨mem_insert_iff_concat h.seen, mem_insert_iff_concat h.seenEvents⟩

theorem ReceiptBook.Indexed.rebuilt (n : Node) : (n.rebuildSeenSets E).receiptBook.Indexed E where
  seen h := by
    simp [Node.receiptBook, Node.rebuildSeenSets, exactHash]
  seenEvents h := by
    simp [Node.receiptBook, Node.rebuildSeenSets]

theorem ReceiptBook.Indexed.of_same {book book' : ReceiptBook} (h : book'.Indexed E)
    (hsame : book.SameStore book') : book.Indexed E where
  seen k := by
    rw [hsame.receipts, hsame.seen]
    exact h.seen k
  seenEvents k := by
    rw [hsame.receipts, hsame.seenEvents]
    exact h.seenEvents k

theorem Reachable.receiptsIndexed (hn : Reachable E AnyEvent n) : n.receiptBook.Indexed E := by
  have hboth : ReceiptInv E n ∧ n.receiptBook.Indexed E := by
    refine hn.invariant admits_any (I := fun n => ReceiptInv E n ∧ n.receiptBook.Indexed E)
      (fun slot => ⟨(Reachable.fresh slot).receiptInv, ?_⟩) fun n n' _ h hstep => ?_
    · exact ⟨by simp [Node.receiptBook, Node.fresh], by simp [Node.receiptBook, Node.fresh]⟩
    · refine ⟨h.1.step hstep, ?_⟩
      rcases h.1.book_cases hstep with ⟨receipts, -, hsame⟩ | ⟨m, -, hsame⟩
      · exact (h.2.persistAll receipts).of_same hsame
      · exact (ReceiptBook.Indexed.rebuilt m).of_same hsame
  exact hboth.2

/-- **The receipt store of every reachable state**: its receipts are signed by witnesses who were
assigned to them, no two are about one event, and the seen sets are their hashes. -/
theorem receipts_are_valid_and_indexed (E : Env) (n : Node) (hn : Reachable E AnyEvent n) :
    (∀ receipt ∈ n.receipts, ReceiptValid E receipt) ∧
    (n.receipts.map (receiptEventHash E.hashing)).Nodup ∧
    (∀ h, h ∈ n.seenReceipts ↔ ∃ receipt ∈ n.receipts, E.hashing.canonicalHash (.receipt receipt) = h) ∧
    ∀ h, h ∈ n.seenReceiptEvents ↔ ∃ receipt ∈ n.receipts, receiptEventHash E.hashing receipt = h := by
  have hsound := hn.receiptInv.book
  have hindexed := hn.receiptsIndexed
  refine ⟨hsound.valid, hsound.distinctEvents, fun h => ?_, fun h => ?_⟩
  · exact (hindexed.seen h).trans List.mem_map
  · exact (hindexed.seenEvents h).trans List.mem_map

/-- Node 1 keeps the receipt it signs for a heartbeat of validator 3. -/
theorem own_receipt_is_indexed : ∃ n, Reachable (receiptEnv 1) AnyEvent n ∧ ∃ receipt ∈ n.receipts,
    ReceiptValid (receiptEnv 1) receipt ∧ rollingHashing.canonicalHash (.receipt receipt) ∈ n.seenReceipts ∧
      receiptEventHash rollingHashing receipt ∈ n.seenReceiptEvents := by
  obtain ⟨n, hn, hlen⟩ := Reachable.of_map (P := AnyEvent) 8
    [.received 3 (.heartbeatPulse (pulseOf3 1))] (some 1) (fun n => n.receipts.length) 1
    (fun _ _ _ => trivial) (by decide +kernel : (runEvents (receiptEnv 1) 8 _ _).map _ = _)
  obtain ⟨receipt, hreceipts⟩ := List.length_eq_one_iff.1 hlen
  have hmem : receipt ∈ n.receipts := by simp [hreceipts]
  obtain ⟨hvalid, -, hseen, hevents⟩ := receipts_are_valid_and_indexed (receiptEnv 1) n hn
  exact ⟨n, hn, receipt, hmem, hvalid receipt hmem, (hseen _).2 ⟨receipt, hmem, rfl⟩,
    (hevents _).2 ⟨receipt, hmem, rfl⟩⟩

end Entangrid
