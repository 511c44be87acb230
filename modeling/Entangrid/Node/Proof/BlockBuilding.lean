import Entangrid.Lib.MapTotal
import Entangrid.Node.Proof.OneVote

/-!
# Building blocks

A proposer takes the first transactions of its mempool, in the order of their hashes, and keeps those
that pass on the ledger they meet. Until one passes, that is the current ledger, so the block is empty
if none of the first ones passes there, however many of the others would.

* `applyPassing_ne_nil_iff`: something of a list is kept iff something of it passes on the ledger.
* `block_building_progress_iff`: a block has a transaction iff a valid one has a small enough rank.
-/

namespace Entangrid

variable {E : Env} {n : Node} {l : LedgerState}

/-! ## The simulation -/

/-- What passes the check can be applied. -/
theorem LedgerState.applyTransaction_of_validateTx {H : Hashing} {crypto : CryptoBackend}
    {tx : SignedTransaction} (h : l.validateTx H crypto tx = .ok ()) :
    l.applyTransaction tx = .ok (l.transfer tx.transaction) := by
  simp only [validateTx, except_bind_ok, rejectIf_ok, decide_eq_false_iff_not] at h
  obtain ⟨-, -, -, -, -, -, -, -, -, hbalance, -⟩ := h
  exact if_neg hbalance

/-- Something is kept exactly if something passes on the ledger the list is met with. -/
theorem applyPassing_ne_nil_iff {txs : List SignedTransaction} :
    (applyPassing E l txs).2 ≠ [] ↔ ∃ tx ∈ txs, checkTransaction E l tx = .ok () := by
  induction txs with
  | nil => simp [applyPassing]
  | cons tx txs ih =>
    unfold applyPassing
    cases hcheck : checkTransaction E l tx with
    | error e =>
      simp only [List.mem_cons, exists_eq_or_imp, hcheck]
      simpa using ih
    | ok u =>
      obtain ⟨_, -, hvalid⟩ := except_bind_ok.1 hcheck
      rw [LedgerState.applyTransaction_of_validateTx hvalid]
      simp [hcheck]

/-! ## Progress -/

/-- The transaction passes the policy and the ledger check on the current ledger. -/
def Includable (E : Env) (n : Node) (transaction : SignedTransaction) : Prop :=
  checkTransaction E n.ledger transaction = .ok ()

/-- How many mempool entries have a smaller transaction hash. -/
def mempoolRank (n : Node) (txHash : HashBytes) : Nat :=
  n.mempool.toList.countP fun entry => compare entry.1 txHash = .lt

theorem mem_selectTransactionsForBlock {transaction : SignedTransaction} :
    transaction ∈ selectTransactionsForBlock E n ↔ ∃ txHash,
      n.mempool[txHash]? = some transaction ∧ mempoolRank n txHash < E.genesis.maxTxsPerBlock :=
  Std.ExtTreeMap.mem_take_values

/-- **A block has a transaction iff a valid one is among the first of the mempool**: fewer than
`max_txs_per_block` entries have a smaller hash, be they valid, of a later nonce or outdated. -/
theorem block_building_progress_iff (E : Env) (n : Node) (slot : Slot) (epoch : Epoch)
    (timestamp : Nat) (block : Block) (hbuilt : buildProposal E n slot epoch timestamp = .ok block) :
    block.transactions ≠ [] ↔ ∃ txHash transaction, n.mempool[txHash]? = some transaction ∧
      Includable E n transaction ∧ mempoolRank n txHash < E.genesis.maxTxsPerBlock := by
  obtain ⟨signature, -, hbuilt⟩ := except_bind_ok.1 hbuilt
  have htransactions : block.transactions =
      (applyPassing E n.ledger (selectTransactionsForBlock E n)).2 := by
    rw [← Except.ok.inj hbuilt]
  rw [htransactions, applyPassing_ne_nil_iff]
  simp only [mem_selectTransactionsForBlock]
  constructor
  · rintro ⟨transaction, ⟨txHash, hfound, hrank⟩, hvalid⟩
    exact ⟨txHash, transaction, hfound, hvalid, hrank⟩
  · rintro ⟨txHash, transaction, hfound, hvalid, hrank⟩
    exact ⟨transaction, ⟨txHash, hfound, hrank⟩, hvalid⟩

/-! ## Runs -/

/-- A payment of validator 2 and its next one, which has the smaller hash. -/
def onePayment : SignedTransaction := signedTransfer 2 (validatorAccount 1) 1 0

def nextPayment : SignedTransaction := signedTransfer 2 (validatorAccount 1) 1 1

/-- The sample node with one transaction a block. -/
def oneTransactionEnv : Env :=
  { sampleEnv 1 with genesis := { sampleGenesis with maxTxsPerBlock := 1 } }

theorem ofExcept_ok_of_isSome {x : Except Error Unit} (h : x.toOption.isSome = true) : x = .ok () := by
  cases x with
  | error e => cases h
  | ok u => rfl

/-- With sixteen transactions a block, the payment is among the first. -/
theorem one_payment_is_built : ∃ n block, Reachable (sampleEnv 1) AnyEvent n ∧
    buildProposal (sampleEnv 1) n 0 0 0 = .ok block ∧ block.transactions ≠ [] := by
  obtain ⟨n, hn, hvalues⟩ := Reachable.of_map (E := sampleEnv 1) (P := AnyEvent) 8
    [.received 2 (.transactionBroadcast onePayment), .received 2 (.transactionBroadcast nextPayment)]
    (some 1) (fun n => (n.mempool[onePayment.txHash]?,
      (checkTransaction (sampleEnv 1) n.ledger onePayment).toOption.isSome,
      decide (mempoolRank n onePayment.txHash < 16),
      (buildProposal (sampleEnv 1) n 0 0 0).toOption.isSome))
    (some onePayment, true, true, true) (fun _ _ _ => trivial) (by decide +kernel)
  simp only [Prod.mk.injEq, decide_eq_true_eq] at hvalues
  obtain ⟨hfound, hvalid, hrank, hbuilt⟩ := hvalues
  obtain ⟨block, hbuilt⟩ := Option.isSome_iff_exists.1 hbuilt
  have hbuilt := toOption_eq_some.1 hbuilt
  exact ⟨n, block, hn, hbuilt, (block_building_progress_iff (sampleEnv 1) n 0 0 0 block hbuilt).2
    ⟨_, onePayment, hfound, ofExcept_ok_of_isSome hvalid, hrank⟩⟩

/-- With one transaction a block, the next payment stands before the one that could be taken, and the
block is empty. -/
theorem next_payment_blocks_payment : ∃ n block, Reachable oneTransactionEnv AnyEvent n ∧
    n.mempool[onePayment.txHash]? = some onePayment ∧ Includable oneTransactionEnv n onePayment ∧
    1 ≤ oneTransactionEnv.genesis.maxTxsPerBlock ∧
    buildProposal oneTransactionEnv n 0 0 0 = .ok block ∧ block.transactions = [] := by
  obtain ⟨n, hn, hvalues⟩ := Reachable.of_map (E := oneTransactionEnv) (P := AnyEvent) 8
    [.received 2 (.transactionBroadcast onePayment), .received 2 (.transactionBroadcast nextPayment)]
    (some 1) (fun n => (n.mempool[onePayment.txHash]?,
      (checkTransaction oneTransactionEnv n.ledger onePayment).toOption.isSome,
      (buildProposal oneTransactionEnv n 0 0 0).toOption.map (·.transactions)))
    (some onePayment, true, some []) (fun _ _ _ => trivial) (by decide +kernel)
  simp only [Prod.mk.injEq] at hvalues
  obtain ⟨hfound, hvalid, hbuilt⟩ := hvalues
  obtain ⟨block, hbuilt, hempty⟩ := Option.map_eq_some_iff.1 hbuilt
  exact ⟨n, block, hn, hfound, ofExcept_ok_of_isSome hvalid, Nat.le_refl 1,
    toOption_eq_some.1 hbuilt, hempty⟩

end Entangrid
