import Entangrid.Node.Proof.ChainFiles
import Entangrid.Node.Proof.Stores

/-!
# What becomes of an admitted transaction

A transaction leaves the mempool when a block with it extends the chain. Nothing brings it back when
that block leaves the chain again.

* `Displaced`: the chain with a transaction is replaced by one without it.
* `admitted_transaction_is_kept`: an admitted transaction is in the mempool or on the chain, unless it
  was displaced since.
-/

namespace Entangrid

variable {E : Env} {A : Source} {n n' : Node}

/-- The hashes of the transactions of a chain. -/
def txHashes (chain : List Block) : List HashBytes :=
  chain.flatMap fun block => block.transactions.map (·.txHash)

/-- The chain a log leads to: the content of `blocks.jsonl`. -/
def chainAfter (log : List Effect) : List Block := (({} : Disk).after log).blocks

/-- In `later`, a chain with the transaction was replaced by one without it. -/
def Displaced (txHash : HashBytes) (before later : List Effect) : Prop :=
  ∃ new old chain, later = new ++ .write (.overwriteBlocks chain) :: old ∧
    txHash ∈ txHashes (chainAfter (old ++ before)) ∧ txHash ∉ txHashes chain

/-! ## Logs -/

section
variable {txHash : HashBytes} {before later : List Effect}

theorem Displaced.append (h : Displaced txHash before later) (new : List Effect) :
    Displaced txHash before (new ++ later) := by
  obtain ⟨new', old, chain, rfl, hon, hoff⟩ := h
  exact ⟨new ++ new', old, chain, by simp, hon, hoff⟩

theorem Displaced.of_append {old new : List Effect} (h : Displaced txHash (old ++ before) new) :
    Displaced txHash before (new ++ old) := by
  obtain ⟨new', old', chain, rfl, hon, hoff⟩ := h
  exact ⟨new', old' ++ old, chain, by simp, by rwa [List.append_assoc], hoff⟩

/-- What the log does to the chain, one effect at a time. -/
theorem mem_txHashes_cons (effect : Effect) (h : txHash ∈ txHashes (chainAfter before)) :
    txHash ∈ txHashes (chainAfter (effect :: before)) ∨
      ∃ chain, effect = .write (.overwriteBlocks chain) ∧ txHash ∉ txHashes chain := by
  cases hquiet : effect.ofChain with
  | false =>
    refine .inl ?_
    rwa [chainAfter, (Disk.after_quiet _ _ hquiet).1]
  | true =>
    cases effect with
    | write w =>
      cases w with
      | appendBlock block =>
        obtain ⟨b, hb, htx⟩ := List.mem_flatMap.1 h
        exact .inl (List.mem_flatMap.2 ⟨b, List.mem_append_left _ hb, htx⟩)
      | overwriteBlocks chain =>
        by_cases hon : txHash ∈ txHashes chain
        · exact .inl hon
        · exact .inr ⟨chain, rfl, hon⟩
      | writeSnapshot => exact .inl h
      | _ => cases hquiet
    | _ => cases hquiet

/-- A transaction on the chain stays there until it is displaced. -/
theorem onChain_or_displaced (h : txHash ∈ txHashes (chainAfter before)) (later : List Effect) :
    txHash ∈ txHashes (chainAfter (later ++ before)) ∨ Displaced txHash before later := by
  induction later with
  | nil => exact .inl h
  | cons effect later ih =>
    rcases ih with hon | hoff
    · rcases mem_txHashes_cons effect hon with hon | ⟨chain, rfl, hoff⟩
      · exact .inl hon
      · exact .inr ⟨[], later, chain, rfl, hon, hoff⟩
    · exact .inr (hoff.append [effect])

/-- An element that is not in a list follows it. -/
theorem split_append {α : Type} {y : α} {xs ys later before : List α}
    (h : xs ++ ys = later ++ y :: before) (hy : y ∉ xs) :
    ∃ old, later = xs ++ old ∧ ys = old ++ y :: before := by
  induction xs generalizing later with
  | nil => exact ⟨later, rfl, h⟩
  | cons x xs ih =>
    cases later with
    | nil => exact absurd ((List.cons.inj h).1 ▸ List.mem_cons_self) hy
    | cons z later =>
      obtain ⟨rfl, hrest⟩ := List.cons.inj h
      obtain ⟨old, rfl, rfl⟩ := ih hrest fun hmem => hy (List.mem_cons_of_mem _ hmem)
      exact ⟨old, rfl, rfl⟩

/-- Where an element does not occur before `x`, it occurs after it. -/
theorem split_after {α : Type} {x y : α} {new old later before : List α}
    (h : new ++ x :: old = later ++ y :: before) (hy : y ∉ new) (hne : x ≠ y) :
    ∃ mid, later = new ++ x :: mid ∧ old = mid ++ y :: before := by
  have hlog : (new ++ [x]) ++ old = later ++ y :: before := by simpa using h
  obtain ⟨mid, hlater, hold⟩ := split_append hlog (by simpa using ⟨hy, fun heq => hne heq.symm⟩)
  exact ⟨mid, by simpa using hlater, hold⟩

end

/-! ## Steps -/

/-- Since it was admitted, the transaction stays in the mempool or was on the chain. -/
def Settling (n : Node) (tx : SignedTransaction) (before later : List Effect) : Prop :=
  n.mempool[tx.txHash]? = some tx ∨
    ∃ new old, later = new ++ old ∧ tx.txHash ∈ txHashes (chainAfter (old ++ before))

structure TransactionInv (n : Node) : Prop where
  /-- What is in the mempool has been seen, so that it is not admitted again. -/
  seen : ∀ (k : HashBytes) (tx : SignedTransaction), n.mempool[k]? = some tx → k ∈ n.seenTransactions
  settling : ∀ later tx before, n.effects = later ++ .transactionAdmitted tx :: before →
    Settling n tx (.transactionAdmitted tx :: before) later

theorem Step.seenTransactions (h : Step E A n n') {k : HashBytes} (hk : k ∈ n.seenTransactions) :
    k ∈ n'.seenTransactions := by
  cases h with
  | book _ hrecords =>
    rwa [show n'.seenTransactions = n.seenTransactions from
      congrArg Records.seenTransactions hrecords]
  | addTx tx => exact Std.ExtTreeSet.mem_insert.2 (.inr hk)
  | replaceVotes =>
    rw [Node.withoutVotes_eq]
    exact hk
  | storeVote | bufferVote =>
    rw [Node.withoutVotes_eq]
    exact hk
  | adopt | applySnapshot | applySegment => exact Std.ExtTreeSet.mem_insertMany_list.2 (.inl hk)
  | _ => exact hk

/-- A transaction leaves the mempool only with a block that was appended since the last admission. -/
theorem Step.mempool_kept (h : Step E A n n') {k : HashBytes} {tx : SignedTransaction}
    (htx : n.mempool[k]? = some tx) (hseen : k ∈ n.seenTransactions) :
    n'.mempool[k]? = some tx ∨ ∃ block new old, n'.effects = new ++ .write (.appendBlock block) :: old ∧
      (∀ tx, .transactionAdmitted tx ∉ new) ∧ k ∈ txHashes [block] := by
  rcases h.mempool_cases with hstays | ⟨new, hnew, -, rfl⟩ | ⟨block, new, old, heffects, hnew, rfl⟩
  · exact .inl (hstays.mempool ▸ htx)
  · refine .inl ?_
    rw [addTransaction_getElem?, if_neg]
    · exact htx
    · exact fun heq => hnew (heq ▸ hseen)
  · by_cases hblock : ∀ t ∈ block.transactions, t.txHash ≠ k
    · exact .inl (Node.dropFromMempool_getElem?.2 ⟨htx, hblock⟩)
    · obtain ⟨t, ht, hk⟩ : ∃ t ∈ block.transactions, t.txHash = k := by simpa using hblock
      refine .inr ⟨block, .mempoolCleared (block.transactions.map (·.txHash)) :: new, old, ?_,
        by simpa using hnew,
        List.mem_flatMap.2 ⟨block, List.mem_cons_self, List.mem_map.2 ⟨t, ht, hk⟩⟩⟩
      exact congrArg (Effect.mempoolCleared _ :: ·) heffects

/-- An admission in the log of a step is old, or of a transaction that is now in the mempool. -/
theorem Step.admission (h : Step E A n n') {later before : List Effect} {tx : SignedTransaction}
    (heffects : n'.effects = later ++ .transactionAdmitted tx :: before) :
    (∃ new old, later = new ++ old ∧ n.effects = old ++ .transactionAdmitted tx :: before) ∨
      n'.mempool[tx.txHash]? = some tx := by
  rcases h.effects_cases with ⟨ws, heq⟩ | ⟨effect, heq, hguard⟩
  · obtain ⟨old, hlater, hold⟩ := split_append (heq.symm.trans heffects) (by simp)
    exact .inl ⟨_, old, hlater, hold⟩
  · by_cases hadmission : effect = .transactionAdmitted tx
    · subst hadmission
      rcases hguard with hguard | hguard
      · exact hguard.elim
      · exact .inr hguard.2
    · have hlog : [effect] ++ n.effects = later ++ .transactionAdmitted tx :: before :=
        heq.symm.trans heffects
      obtain ⟨old, hlater, hold⟩ := split_append hlog (by simpa using fun h => hadmission h.symm)
      exact .inl ⟨_, old, hlater, hold⟩

theorem TransactionInv.step (h : TransactionInv n) (hstep : Step E A n n') : TransactionInv n' where
  seen k tx htx := by
    rcases hstep.mempool htx with hold | ⟨rfl, -, rfl⟩
    · exact hstep.seenTransactions (h.seen k tx hold)
    · exact Std.ExtTreeSet.mem_insert_self
  settling later tx before heffects := by
    have hmempool (hmem : n.mempool[tx.txHash]? = some tx) :
        Settling n' tx (.transactionAdmitted tx :: before) later := by
      rcases hstep.mempool_kept hmem (h.seen _ _ hmem) with hkept | ⟨block, new, old, hlog, hnew, hblock⟩
      · exact .inl hkept
      · -- the block was appended after the admission
        obtain ⟨mid, hlater, -⟩ := split_after (hlog.symm.trans heffects) (hnew tx) (by simp)
        refine .inr ⟨new, .write (.appendBlock block) :: mid, hlater, ?_⟩
        obtain ⟨b, hb, htx⟩ := List.mem_flatMap.1 hblock
        exact List.mem_flatMap.2 ⟨b, List.mem_append_right _ hb, htx⟩
    rcases hstep.admission heffects with ⟨new, old, rfl, hold⟩ | hmem
    · rcases h.settling old tx before hold with hmem | ⟨new', old', rfl, hon⟩
      · exact hmempool hmem
      · exact .inr ⟨new ++ new', old', by simp, hon⟩
    · exact .inl hmem

theorem TransactionInv.fresh (slot : Option Slot) : TransactionInv (Node.fresh E slot) where
  seen := by simp [Node.fresh]
  settling := by simp [Node.fresh]

/-- **An admitted transaction is kept until it is displaced**: at every later time it is in the mempool
or on the chain, unless a chain with it was replaced by one without it since. -/
theorem admitted_transaction_is_kept (E : Env) (n : Node) (hn : Reachable E AnyEvent n)
    (tx : SignedTransaction) (before later : List Effect)
    (hadmitted : n.effects = later ++ .transactionAdmitted tx :: before) :
    n.mempool[tx.txHash]? = some tx ∨ tx.txHash ∈ txHashes n.blocks ∨
      Displaced tx.txHash (.transactionAdmitted tx :: before) later := by
  have hinv : TransactionInv n := hn.invariant admits_any TransactionInv.fresh
    fun _ _ _ h hstep => h.step hstep
  rcases hinv.settling later tx before hadmitted with hmem | ⟨new, old, rfl, hon⟩
  · exact .inl hmem
  · rcases onChain_or_displaced hon new with hon | hoff
    · refine .inr (.inl ?_)
      rw [← List.append_assoc, ← hadmitted] at hon
      exact hn.diskInv.blocks ▸ hon
    · exact .inr (.inr hoff.of_append)

/-! ## Runs -/

/-- A payment of validator 1, and a first block with it. -/
def payment : SignedTransaction := signedTransfer 1 (validatorAccount 2) 5 0

def paymentBlock : Block :=
  let C := (sampleEnv 1).consensus
  signedBlock 1 empty_hash 0 (C.epochForSlot 0) (C.proposerForSlot 0) [payment]
    ((LedgerState.fromGenesis sampleGenesis).transfer payment.transaction)

/-- A chain of two blocks without it, its tip supported by two validators. -/
def rivalSnapshot : ChainSnapshot :=
  let rivalChild := emptyBlock 2 rivalBlock.blockHash 2
  { snapshot := { (LedgerState.fromGenesis sampleGenesis).snapshot with
      height := 2, tipHash := rivalChild.blockHash, lastSlot := 2 }
    blocks := [rivalBlock, rivalChild]
    receipts := []
    proposalVotes := [signedProposalVote 2 rivalChild, signedProposalVote 3 rivalChild] }

/-- The log says that the payment was admitted. -/
def paymentAdmitted (n : Node) : Bool :=
  n.effects.any fun
    | .transactionAdmitted tx => tx == payment
    | _ => false

theorem paymentAdmitted_split {n : Node} (h : paymentAdmitted n = true) :
    ∃ later before, n.effects = later ++ .transactionAdmitted payment :: before := by
  obtain ⟨effect, hmem, heq⟩ := List.any_eq_true.1 h
  cases effect with
  | transactionAdmitted tx =>
    obtain rfl : tx = payment := by simpa using heq
    exact List.append_of_mem hmem
  | _ => simp at heq

/-- Node 1 admits the payment and takes the block with it: it is on the chain. -/
theorem payment_is_on_chain : ∃ n later before, Reachable (sampleEnv 1) AnyEvent n ∧
    n.effects = later ++ .transactionAdmitted payment :: before ∧
    n.mempool[payment.txHash]? = none ∧ (payment.txHash ∈ txHashes n.blocks ∨
      Displaced payment.txHash (.transactionAdmitted payment :: before) later) := by
  have hrun : (runEvents (sampleEnv 1) 8 [.received 2 (.transactionBroadcast payment),
      .received 4 (.blockProposal paymentBlock)] (.fresh (sampleEnv 1) (some 1))).map (fun n =>
        (paymentAdmitted n, n.mempool[payment.txHash]?)) = some (true, none) := by
    decide +kernel
  obtain ⟨n, hn, hvalues⟩ := Option.map_eq_some_iff.1 hrun
  simp only [Prod.mk.injEq] at hvalues
  have hreachable := Reachable.runEvents (P := AnyEvent) (.fresh _) (fun _ _ _ => trivial) hn
  obtain ⟨later, before, hlog⟩ := paymentAdmitted_split hvalues.1
  refine ⟨n, later, before, hreachable, hlog, hvalues.2, ?_⟩
  have hkept := admitted_transaction_is_kept (sampleEnv 1) n hreachable payment before later hlog
  exact hkept.resolve_left (by simp [hvalues.2])

/-- Then the chain without it is adopted: the payment is in no block and not in the mempool, its nonce
is unused, and it would not be admitted again. -/
theorem displaced_payment_is_lost : ∃ n later before, Reachable (sampleEnv 1) AnyEvent n ∧
    n.effects = later ++ .transactionAdmitted payment :: before ∧
    n.mempool[payment.txHash]? = none ∧ payment.txHash ∉ txHashes n.blocks ∧
    ¬payment.transaction.nonce < n.ledger.nonceOf payment.transaction.fromAccount ∧
    payment.txHash ∈ n.seenTransactions := by
  have hrun : (runEvents (sampleEnv 1) 8 [.received 2 (.transactionBroadcast payment),
      .received 4 (.blockProposal paymentBlock), .received 3 (.syncResponse 3 rivalSnapshot)]
      (.fresh (sampleEnv 1) (some 1))).map (fun n =>
        (paymentAdmitted n, n.mempool[payment.txHash]?, decide (payment.txHash ∈ txHashes n.blocks),
          n.ledger.nonceOf payment.transaction.fromAccount,
          n.seenTransactions.contains payment.txHash)) = some (true, none, false, 0, true) := by
    decide +kernel
  obtain ⟨n, hn, hvalues⟩ := Option.map_eq_some_iff.1 hrun
  simp only [Prod.mk.injEq, decide_eq_false_iff_not] at hvalues
  obtain ⟨hadmitted, hmempool, hchain, hnonce, hseen⟩ := hvalues
  obtain ⟨later, before, hlog⟩ := paymentAdmitted_split hadmitted
  refine ⟨n, later, before, Reachable.runEvents (.fresh _) (fun _ _ _ => trivial) hn, hlog, hmempool,
    hchain, ?_, by simpa using hseen⟩
  rw [hnonce]
  exact Nat.not_lt_zero _

end Entangrid
