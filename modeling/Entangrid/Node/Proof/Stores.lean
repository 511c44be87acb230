import Entangrid.Node.Proof.Covers

/-!
# What a step adds to the stores of a node

One lemma per store: an entry after a step was there before, or came in with the checks the code makes
for it.
-/

namespace Entangrid

variable {E : Env} {A : Source} {n n' : Node}

/-! ## Receipts -/

/-- Persisting receipts adds some of them. -/
theorem ReceiptBook.mem_foldl_persist {book : ReceiptBook} {receipts : List RelayReceipt}
    {receipt : RelayReceipt} (h : receipt ∈ (receipts.foldl (ReceiptBook.persist E) book).receipts) :
    receipt ∈ book.receipts ∨ receipt ∈ receipts := by
  induction receipts generalizing book with
  | nil => exact .inl h
  | cons r receipts ih =>
    rcases ih h with h | h
    · unfold ReceiptBook.persist at h
      split_ifs at h
      · exact .inl h
      · exact .inl h
      · rcases List.mem_append.1 h with h | h
        · exact .inl h
        · exact .inr (List.mem_singleton.1 h ▸ List.mem_cons_self)
    · exact .inr (List.mem_cons_of_mem _ h)

/-- A receipt was stored before, passed the checks of `validate_receipt`, stands in the commitment
bundle of a block, or came with a snapshot. -/
theorem Step.receipts (h : Step E A n n') {receipt : RelayReceipt} (hr : receipt ∈ n'.receipts) :
    receipt ∈ n.receipts ∨ receiptVerdict E receipt = .ok () ∨
      (∃ block, (block ∈ n.knownBlocks ∨ A.New E n block) ∧ receipt ∈ block.commitmentReceipts) ∨
      ∃ chain ∈ A.snapshots n.core, (∃ ledger, validateChainSnapshot E chain = .ok ledger) ∧
        receipt ∈ chain.receipts := by
  have hold (heq : n'.receipts = n.receipts) : receipt ∈ n.receipts := heq ▸ hr
  cases h with
  | book _ hrecords => exact .inl (hold (congrArg Records.receipts hrecords))
  | storeReceipt new hverdict =>
    have hr' : receipt ∈ ([new].foldl (ReceiptBook.persist E) n.receiptBook).receipts := hr
    rcases ReceiptBook.mem_foldl_persist hr' with hr | hr
    · exact .inl hr
    · exact .inr (.inl (List.mem_singleton.1 hr ▸ hverdict))
  | commitmentReceipts block hblock =>
    rcases ReceiptBook.mem_foldl_persist hr with hr | hr
    · exact .inl hr
    · exact .inr (.inr (.inl ⟨block, .inl (Node.mem_knownBlocks.2 (.inl hblock)), hr⟩))
  | replaceVotes => exact .inl (hold (by rw [Node.withoutVotes_eq]))
  | storeVote | bufferVote => exact .inl (hold (by rw [Node.withoutVotes_eq]; rfl))
  | adopt hsource =>
    rcases ReceiptBook.mem_foldl_persist hr with hr | hr
    · exact .inl hr
    · obtain ⟨block, hblock, hr⟩ := List.mem_flatMap.1 hr
      exact .inr (.inr (.inl ⟨block, hsource.block hblock, hr⟩))
  | @applySnapshot chain ledger hoffered _ hvalid =>
    exact .inr (.inr (.inr ⟨chain, hoffered, ⟨ledger, hvalid⟩, hr⟩))
  | _ => exact .inl hr

/-! ## The mempool -/

theorem Node.dropFromMempool_getElem? {transactions : List SignedTransaction} {h : HashBytes}
    {tx : SignedTransaction} :
    (n.dropFromMempool transactions).mempool[h]? = some tx ↔
      n.mempool[h]? = some tx ∧ ∀ t ∈ transactions, t.txHash ≠ h := by
  unfold dropFromMempool
  dsimp only
  induction transactions generalizing n with
  | nil => simp
  | cons t transactions ih =>
    rw [List.foldl_cons]
    refine (ih (n := { n with mempool := n.mempool.erase t.txHash })).trans ?_
    rw [Std.ExtTreeMap.getElem?_erase, List.forall_mem_cons]
    by_cases ht : t.txHash = h
    · simp [ht]
    · rw [if_neg (by simpa using ht)]
      exact ⟨fun ⟨hm, hrest⟩ => ⟨hm, ht, hrest⟩, fun ⟨hm, _, hrest⟩ => ⟨hm, hrest⟩⟩

theorem addTransaction_getElem? (tx : SignedTransaction) (effect : Effect) (h : HashBytes) :
    ((addTransaction tx n).withEffect effect).mempool[h]? =
      if tx.txHash = h then some tx else n.mempool[h]? := by
  have hmempool : ((addTransaction tx n).withEffect effect).mempool = n.mempool.insert tx.txHash tx :=
    rfl
  rw [hmempool, Std.ExtTreeMap.getElem?_insert]
  simp only [Std.LawfulEqCmp.compare_eq_iff_eq]

/-- The mempool and what is recorded of it stay. -/
structure Node.MempoolStays (n n' : Node) : Prop where
  mempool : n'.mempool = n.mempool
  effects : ∃ new, n'.effects = new ++ n.effects ∧ (∀ tx, .transactionAdmitted tx ∉ new) ∧
    ∀ hashes, .mempoolCleared hashes ∉ new

theorem Node.OnlyWrites.mempoolStays (h : n.OnlyWrites n') (hmempool : n'.mempool = n.mempool) :
    n.MempoolStays n' := by
  obtain ⟨ws, heq⟩ := h
  exact ⟨hmempool, _, heq, by simp, by simp⟩

/-- **What a step does to the mempool**: nothing, an admission, or the removal of what an appended
block holds. -/
theorem Step.mempool_cases (h : Step E A n n') : n.MempoolStays n' ∨
    (∃ tx, tx.txHash ∉ n.seenTransactions ∧ validateTxAgainstMempool E n tx = .ok () ∧
      n' = (addTransaction tx n).withEffect (.transactionAdmitted tx)) ∨
    ∃ block new old, n.effects = new ++ .write (.appendBlock block) :: old ∧
      (∀ tx, .transactionAdmitted tx ∉ new) ∧
      n' = (n.dropFromMempool block.transactions).withEffect
        (.mempoolCleared (block.transactions.map (·.txHash))) := by
  cases h with
  | book hcore =>
    exact .inl (Node.OnlyWrites.mempoolStays (.of_eq (Node.core_effects hcore))
      (Node.core_mempool hcore))
  | emit effect heffect =>
    refine .inl ⟨rfl, [effect], rfl, fun tx htx => ?_, fun hashes hhashes => ?_⟩
    · rw [← List.mem_singleton.1 htx] at heffect
      exact heffect
    · rw [← List.mem_singleton.1 hhashes] at heffect
      exact heffect
  | storeReceipt => exact .inl (Node.OnlyWrites.mempoolStays (.withReceipt _) rfl)
  | commitmentReceipts =>
    exact .inl (Node.OnlyWrites.mempoolStays (.withCommitmentReceipts _) rfl)
  | addTx tx hnew hvalid => exact .inr (.inl ⟨tx, hnew, hvalid, rfl⟩)
  | drop block new old heffects hnew => exact .inr (.inr ⟨block, new, old, heffects, hnew, rfl⟩)
  | replaceVotes =>
    rw [Node.withoutVotes_eq]
    exact .inl (Node.OnlyWrites.mempoolStays (.of_eq rfl) rfl)
  | storeVote | bufferVote =>
    rw [Node.withoutVotes_eq]
    exact .inl ⟨rfl, [_], rfl, by simp, by simp⟩
  | extend => exact .inl (Node.OnlyWrites.mempoolStays (.extended _ _) rfl)
  | adopt => exact .inl (Node.OnlyWrites.mempoolStays (.adopted _ _) rfl)
  | applySnapshot => exact .inl (Node.OnlyWrites.mempoolStays (.snapshotted _ _) rfl)
  | applySegment => exact .inl (Node.OnlyWrites.mempoolStays (.segmented _ _) rfl)
  | _ => exact .inl (Node.OnlyWrites.mempoolStays (.of_eq rfl) rfl)

/-- A transaction of the mempool was there before or was admitted. -/
theorem Step.mempool (h : Step E A n n') {k : HashBytes} {tx : SignedTransaction}
    (htx : n'.mempool[k]? = some tx) :
    n.mempool[k]? = some tx ∨ (k = tx.txHash ∧ validateTxAgainstMempool E n tx = .ok () ∧
      n' = (addTransaction tx n).withEffect (.transactionAdmitted tx)) := by
  rcases h.mempool_cases with hstays | ⟨new, -, hvalid, rfl⟩ | ⟨block, _, _, -, -, rfl⟩
  · exact .inl (hstays.mempool ▸ htx)
  · rw [addTransaction_getElem?] at htx
    split_ifs at htx with hk
    · obtain rfl := Option.some.inj htx
      exact .inr ⟨hk.symm, hvalid, rfl⟩
    · exact .inl htx
  · exact .inl (Node.dropFromMempool_getElem?.1 htx).1

/-! ## Votes -/

/-- A held vote was held before, or is signed by a validator as the policy asks. -/
theorem Step.holds_checked (h : Step E A n n') {vote : ProposalVote} (hv : n'.Holds vote) :
    n.Holds vote ∨ (validateProposalVoteSignatureAndSigner E vote = .ok () ∧
      validateHybridProposalVotePolicy E vote = .ok ()) := (h.vote_cases hv).imp_right And.right

/-! ## Service attestations -/

/-- An attestation in the store. -/
def Node.Attested (n : Node) (attestation : ServiceAttestation) : Prop :=
  ∃ (key : ValidatorId × Epoch) (member : ValidatorId),
    (n.serviceAttestations.getD key ∅)[member]? = some attestation

theorem Step.attested (h : Step E A n n') {attestation : ServiceAttestation}
    (ha : n'.Attested attestation) :
    n.Attested attestation ∨ validateServiceAttestation E attestation = .ok () := by
  have hold (heq : n'.serviceAttestations = n.serviceAttestations) : n.Attested attestation := by
    unfold Node.Attested
    rw [← heq]
    exact ha
  cases h with
  | book _ hrecords => exact .inl (hold (congrArg Records.serviceAttestations hrecords))
  | attest new hvalid =>
    obtain ⟨key, member, ha⟩ := ha
    rw [addServiceAttestation, Std.ExtTreeMap.getD_insert] at ha
    split_ifs at ha with hkey
    · rw [Std.ExtTreeMap.getElem?_insert] at ha
      split_ifs at ha
      · obtain rfl := Option.some.inj ha
        exact .inr hvalid
      · exact .inl ⟨_, member, ha⟩
    · exact .inl ⟨key, member, ha⟩
  | replaceVotes => exact .inl (hold (by rw [Node.withoutVotes_eq]))
  | storeVote | bufferVote => exact .inl (hold (by rw [Node.withoutVotes_eq]; rfl))
  | _ => exact .inl (hold rfl)

end Entangrid
