import Entangrid.Ledger.Proof.Supply
import Entangrid.Node.Proof.Clearing

/-!
# The mempool and the chain

Of the ways in which a block becomes canonical, only the extension in `accept_block` takes its
transactions out of the mempool. A chain that is adopted, or applied from a snapshot or a segment,
leaves the mempool as it is, and so does an extension that fails before the removal.

* `Overtaken`, `Uncleared`: the two ways in which a transaction comes to be in both places.
* `mempool_apart_from_chain`: where no waiting transaction is overtaken and extensions do not fail, mempool
  and chain are disjoint.
-/

namespace Entangrid

open LedgerState

variable {E : Env} {A : Source} {n n' : Node} {k : HashBytes} {log : List Effect}

/-- The transaction was admitted, and no block with it was appended since. -/
def Waiting (k : HashBytes) (log : List Effect) : Prop :=
  ∃ later tx before, log = later ++ .transactionAdmitted tx :: before ∧ tx.txHash = k ∧
    ∀ block, .write (.appendBlock block) ∈ later → k ∉ txHashes [block]

/-- The chain was replaced by one with the waiting transaction. -/
def Overtaken (k : HashBytes) (log : List Effect) : Prop :=
  ∃ later chain before, log = later ++ .write (.overwriteBlocks chain) :: before ∧
    Waiting k before ∧ k ∈ txHashes chain

/-- A block with the waiting transaction was appended, and the transaction was not taken out
since. -/
def Uncleared (k : HashBytes) (log : List Effect) : Prop :=
  ∃ later block before, log = later ++ .write (.appendBlock block) :: before ∧
    Waiting k before ∧ k ∈ txHashes [block] ∧ ¬Cleared k later

/-- The transactions of a chain. -/
def chainTransactions (chain : List Block) : List SignedTransaction := chain.flatMap (·.transactions)

/-- What makes a transaction known by its hash and its sender's nonce: no transaction on a chain of the
log shares its hash with another one that is admitted, and there are not `2 ^ 64` of anything. -/
structure Distinguished (log : List Effect) : Prop where
  hashes : ∀ tx, .transactionAdmitted tx ∈ log → ∀ earlier, earlier <:+ log →
    ∀ t ∈ chainTransactions (chainAfter earlier), t.txHash = tx.txHash → t.transaction = tx.transaction
  short : ∀ earlier, earlier <:+ log →
    (chainTransactions (chainAfter earlier)).length + earlier.length < 2 ^ 64

theorem Distinguished.mono {log' : List Effect} (h : Distinguished log') (hsuffix : log <:+ log') :
    Distinguished log where
  hashes tx htx earlier hearlier := h.hashes tx (hsuffix.mem htx) earlier (hearlier.trans hsuffix)
  short earlier hearlier := h.short earlier (hearlier.trans hsuffix)

theorem mem_txHashes {chain : List Block} :
    k ∈ txHashes chain ↔ ∃ tx ∈ chainTransactions chain, tx.txHash = k := by
  simp only [txHashes, chainTransactions, List.mem_flatMap, List.mem_map]
  constructor
  · intro h
    obtain ⟨block, hblock, tx, htx, hk⟩ := h
    exact ⟨tx, ⟨block, hblock, htx⟩, hk⟩
  · intro h
    obtain ⟨tx, ⟨block, hblock, htx⟩, hk⟩ := h
    exact ⟨block, hblock, tx, htx, hk⟩

theorem mem_txHashes_append {chain chain' : List Block} :
    k ∈ txHashes (chain ++ chain') ↔ k ∈ txHashes chain ∨ k ∈ txHashes chain' := by
  simp only [txHashes, List.flatMap_append, List.mem_append]

/-! ## Logs -/

theorem Waiting.cons (h : Waiting k log) {effect : Effect}
    (heffect : ∀ block, effect = .write (.appendBlock block) → k ∉ txHashes [block]) :
    Waiting k (effect :: log) := by
  obtain ⟨later, tx, before, rfl, htx, hlater⟩ := h
  refine ⟨effect :: later, tx, before, rfl, htx, fun block hblock => ?_⟩
  rcases List.mem_cons.1 hblock with hblock | hblock
  · exact heffect block hblock.symm
  · exact hlater block hblock

section
variable {new : List Effect} (hnew : ¬Cleared k new)
include hnew

theorem Uncleared.append (h : Uncleared k log) : Uncleared k (new ++ log) := by
  obtain ⟨later, block, before, rfl, hwaiting, hk, hlater⟩ := h
  refine ⟨new ++ later, block, before, by simp, hwaiting, hk, ?_⟩
  rw [cleared_append]
  exact not_or.2 ⟨hnew, hlater⟩

/-- A waiting transaction waits on until a block with it is appended. -/
theorem Waiting.append (h : Waiting k log) : Waiting k (new ++ log) ∨ Uncleared k (new ++ log) := by
  induction new with
  | nil => exact .inl h
  | cons effect new ih =>
    obtain ⟨hhead, hnew⟩ := not_or.1 (cleared_cons.not.1 hnew)
    rcases ih hnew with hwaiting | huncleared
    · by_cases happend : ∃ block, effect = .write (.appendBlock block) ∧ k ∈ txHashes [block]
      · obtain ⟨block, rfl, hk⟩ := happend
        exact .inr ⟨[], block, new ++ log, rfl, hwaiting, hk, by simp [Cleared]⟩
      · refine .inl (hwaiting.cons fun block heffect hk => ?_)
        exact happend ⟨block, heffect, hk⟩
    · obtain ⟨later, block, before, heq, hwaiting, hk, hlater⟩ := huncleared
      refine .inr ⟨effect :: later, block, before, congrArg (effect :: ·) heq, hwaiting, hk, ?_⟩
      rw [cleared_cons]
      exact not_or.2 ⟨hhead, hlater⟩

end

theorem Overtaken.append (h : Overtaken k log) (new : List Effect) : Overtaken k (new ++ log) := by
  obtain ⟨later, chain, before, rfl, hwaiting, hk⟩ := h
  exact ⟨new ++ later, chain, before, by simp, hwaiting, hk⟩

/-- Quiet effects append no block. -/
theorem Waiting.quiet (h : Waiting k log) {new : List Effect} (hnew : Quiet new) :
    Waiting k (new ++ log) := by
  induction new with
  | nil => exact h
  | cons effect new ih =>
    obtain ⟨heffect, hnew⟩ := List.forall_mem_cons.1 hnew
    refine (ih hnew).cons fun block happend => ?_
    rw [happend] at heffect
    cases heffect

/-! ## Admission -/

/-- The transactions that pass only raise a nonce. -/
theorem nonceOf_le_applyPassing {l : LedgerState} {a : AccountId} {txs : List SignedTransaction}
    (hfit : l.nonceOf a + txs.length < 2 ^ 64) : l.nonceOf a ≤ (applyPassing E l txs).1.nonceOf a := by
  induction txs generalizing l with
  | nil => exact le_refl _
  | cons tx txs ih =>
    rw [List.length_cons] at hfit
    unfold applyPassing
    split
    · exact ih (by omega)
    · split
      · exact ih (by omega)
      · next l' happly =>
        have hl' : l' = l.transfer tx.transaction := by
          unfold applyTransaction at happly
          split_ifs at happly
          exact (Except.ok.inj happly).symm
        have hsent : sentBy a [tx] ≤ 1 := List.countP_le_length
        have hcount : l'.nonceOf a = l.nonceOf a + sentBy a [tx] := by
          rw [hl']
          exact nonceOf_transfer_add (by omega)
        have hrest := ih (l := l') (by omega)
        dsimp only
        omega

theorem pendingFrom_length_le (account : AccountId) :
    (pendingFrom n account).length ≤ n.mempool.size := by
  unfold pendingFrom sortBy
  rw [List.length_insertionSort]
  refine (List.length_filter_le _ _).trans ?_
  rw [List.length_map, Std.ExtTreeMap.length_toList]

/-- A transaction on the chain is not admitted again: its sender's nonce is past it. -/
theorem admitted_not_on_chain {tx : SignedTransaction}
    (hreplay : replayBlocks E.hashing E.crypto E.genesis n.blocks = .ok n.ledger)
    (hshort : (chainTransactions n.blocks).length + n.mempool.size < 2 ^ 64)
    (hhashes : ∀ t ∈ chainTransactions n.blocks, t.txHash = tx.txHash → t.transaction = tx.transaction)
    (hvalid : validateTxAgainstMempool E n tx = .ok ()) : tx.txHash ∉ txHashes n.blocks := by
  intro hon
  obtain ⟨t, ht, heq⟩ := mem_txHashes.1 hon
  have hsame := hhashes t ht heq
  obtain ⟨hbelow, hle⟩ := replayBlocks_nonce hreplay (Nat.lt_of_le_of_lt (Nat.le_add_right _ _) hshort) ht
  rw [hsame] at hbelow hle
  obtain ⟨_, -, hcheck⟩ := except_bind_ok.1 hvalid
  have hnonce := validateTx_nonce hcheck
  have hpending := pendingFrom_length_le (n := n) tx.transaction.fromAccount
  have hraised : n.ledger.nonceOf tx.transaction.fromAccount ≤ (applyPassing E n.ledger
      (pendingFrom n tx.transaction.fromAccount)).1.nonceOf tx.transaction.fromAccount :=
    nonceOf_le_applyPassing (by unfold chainTransactions at hshort; omega)
  omega

/-! ## Steps -/

theorem Node.dropFromMempool_size_le (transactions : List SignedTransaction) :
    (n.dropFromMempool transactions).mempool.size ≤ n.mempool.size := by
  unfold dropFromMempool
  dsimp only
  generalize n.mempool = mempool
  induction transactions generalizing mempool with
  | nil => exact le_refl _
  | cons tx transactions ih => exact (ih _).trans Std.ExtTreeMap.size_erase_le

/-- A transaction that is still in the mempool was not removed. -/
theorem Step.effects_uncleared (h : Step E A n n') {tx : SignedTransaction}
    (htx : n'.mempool[k]? = some tx) : ∃ new, n'.effects = new ++ n.effects ∧ ¬Cleared k new := by
  rcases h.mempool_cases with hstays | ⟨new, -, -, rfl⟩ | ⟨block, _, _, -, -, rfl⟩
  · obtain ⟨new, heq, -, hnew⟩ := hstays.effects
    refine ⟨new, heq, fun hcleared => ?_⟩
    obtain ⟨hashes, hmem, -⟩ := hcleared
    exact hnew hashes hmem
  · exact ⟨[_], rfl, by simp [Cleared]⟩
  · refine ⟨[_], rfl, fun hcleared => ?_⟩
    obtain ⟨hashes, hmem, hk⟩ := hcleared
    obtain rfl : hashes = block.transactions.map (·.txHash) := by simpa using hmem
    obtain ⟨t, ht, heq⟩ := List.mem_map.1 hk
    exact (Node.dropFromMempool_getElem?.1 htx).2 t ht heq

structure MempoolInv (n : Node) : Prop where
  size : n.mempool.size ≤ n.effects.length
  waiting : ∀ k tx, n.mempool[k]? = some tx → Waiting k n.effects ∨ Uncleared k n.effects
  apart : Distinguished n.effects → ∀ k tx, n.mempool[k]? = some tx → k ∈ txHashes n.blocks →
    Overtaken k n.effects ∨ Uncleared k n.effects

theorem MempoolInv.size_step (h : MempoolInv n) (hstep : Step E A n n') :
    n'.mempool.size ≤ n'.effects.length := by
  have hsize := h.size
  rcases hstep.mempool_cases with hstays | ⟨tx, -, -, rfl⟩ | ⟨block, _, _, -, -, rfl⟩
  · obtain ⟨new, heq, -⟩ := hstays.effects
    rw [hstays.mempool, heq, List.length_append]
    omega
  · have hinsert : ((addTransaction tx n).withEffect (.transactionAdmitted tx)).mempool.size ≤
        n.mempool.size + 1 := Std.ExtTreeMap.size_insert_le
    exact hinsert.trans (Nat.succ_le_succ hsize)
  · exact (n.dropFromMempool_size_le block.transactions).trans (hsize.trans (Nat.le_succ _))

theorem MempoolInv.waiting_step (h : MempoolInv n) (hstep : Step E A n n') {tx : SignedTransaction}
    (htx : n'.mempool[k]? = some tx) : Waiting k n'.effects ∨ Uncleared k n'.effects := by
  obtain ⟨new, heq, hnew⟩ := hstep.effects_uncleared htx
  rcases hstep.mempool htx with hold | ⟨rfl, -, rfl⟩
  · rw [heq]
    rcases h.waiting k tx hold with hwaiting | huncleared
    · exact hwaiting.append hnew
    · exact .inr (huncleared.append hnew)
  · exact .inl ⟨[], tx, n.effects, rfl, rfl, by simp⟩

theorem MempoolInv.apart_step (h : MempoolInv n) (hdisk : DiskInv E {} n) (hstep : Step E A n n')
    (hlog : Distinguished n'.effects) {tx : SignedTransaction} (htx : n'.mempool[k]? = some tx)
    (hon : k ∈ txHashes n'.blocks) : Overtaken k n'.effects ∨ Uncleared k n'.effects := by
  obtain ⟨new, heq, hnew⟩ := hstep.effects_uncleared htx
  rcases hstep.mempool htx with hold | ⟨rfl, hvalid, rfl⟩
  · have hkept (hon : k ∈ txHashes n.blocks) : Overtaken k n'.effects ∨ Uncleared k n'.effects := by
      rw [heq]
      rcases h.apart (hlog.mono hstep.effects_suffix) k tx hold hon with hovertaken | huncleared
      · exact .inl (hovertaken.append new)
      · exact .inr (huncleared.append hnew)
    rcases hstep.chain_cases with hstays | ⟨-, block, hgrows⟩ | hreplaced
    · exact hkept (hstays.blocks ▸ hon)
    · rw [hgrows.blocks, mem_txHashes_append] at hon
      rcases hon with hon | hon
      · exact hkept hon
      · rcases h.waiting k tx hold with hwaiting | huncleared
        · exact .inr ⟨[_], block, n.effects, hgrows.effects, hwaiting, hon, by simp [Cleared]⟩
        · exact .inr (heq ▸ huncleared.append hnew)
    · rcases h.waiting k tx hold with hwaiting | huncleared
      · obtain ⟨pre, post, heffects, hpre, -⟩ := hreplaced.effects
        have hbefore : Waiting k (.write (.writeSnapshot n'.ledger.snapshot) :: (pre ++ n.effects)) :=
          (hwaiting.quiet hpre).cons (by simp)
        exact .inl ⟨post, n'.blocks, _, heffects, hbefore, hon⟩
      · exact .inr (heq ▸ huncleared.append hnew)
  · -- an admitted transaction is not on the chain
    have hchain : chainAfter n.effects = n.blocks := hdisk.blocks
    have hshort := hlog.short n.effects hstep.effects_suffix
    rw [hchain] at hshort
    have hoff : tx.txHash ∉ txHashes n.blocks := by
      refine admitted_not_on_chain hdisk.replay ?_ (fun t ht => ?_) hvalid
      · exact Nat.lt_of_le_of_lt (Nat.add_le_add_left h.size _) hshort
      · exact hlog.hashes tx List.mem_cons_self n.effects hstep.effects_suffix t (hchain.symm ▸ ht)
    exact absurd hon hoff

theorem MempoolInv.fresh (slot : Option Slot) : MempoolInv (Node.fresh E slot) where
  size := le_refl _
  waiting := by simp [Node.fresh]
  apart := by simp [Node.fresh]

theorem Reachable.mempoolInv (hn : Reachable E AnyEvent n) : MempoolInv n := by
  have hboth : DiskInv E {} n ∧ MempoolInv n := by
    refine hn.invariant admits_any (I := fun n => DiskInv E {} n ∧ MempoolInv n)
      (fun slot => ⟨(Reachable.fresh slot).diskInv, .fresh slot⟩) fun n n' _ h hstep => ?_
    exact ⟨h.1.step hstep, h.2.size_step hstep, fun _ _ => h.2.waiting_step hstep,
      fun hlog _ _ => h.2.apart_step h.1 hstep hlog⟩
  exact hboth.2

/-- **Mempool and chain are disjoint** in every run in which no waiting transaction is overtaken by a
replacement of the chain and, with `consensus_v2`, the blocks that arrive beside the tip execute. -/
theorem mempool_apart_from_chain (E : Env) (S : Set Block) (hme : E.me ∈ genesisIds E) (n : Node)
    (hn : Reachable E (SafelyArrives E S) n) (horderly : E.v2 = true → Orderly E S n)
    (hlog : Distinguished n.effects)
    (hreplaced : ∀ later chain before, n.effects = later ++ .write (.overwriteBlocks chain) :: before →
      ∀ k, Waiting k before → k ∉ txHashes chain)
    (k : HashBytes) (tx : SignedTransaction) (htx : n.mempool[k]? = some tx) :
    k ∉ txHashes n.blocks := by
  have hcleared := hn.appendsCleared hme horderly
  have hinv := (hn.mono (Q := AnyEvent) fun _ _ _ => trivial).mempoolInv
  intro hon
  rcases hinv.apart hlog k tx htx hon with
    ⟨later, chain, before, heq, hwaiting, hk⟩ | ⟨later, block, before, heq, hwaiting, hk, hnot⟩
  · exact hreplaced later chain before heq k hwaiting hk
  · exact hnot (hcleared later block before heq k hk)

/-! ## Runs -/

theorem waiting_cons {effect : Effect} : Waiting k (effect :: log) ↔
    (∃ tx, effect = .transactionAdmitted tx ∧ tx.txHash = k) ∨
      (Waiting k log ∧ ∀ block, effect = .write (.appendBlock block) → k ∉ txHashes [block]) := by
  constructor
  · intro h
    obtain ⟨later, tx, before, heq, hk, hlater⟩ := h
    cases later with
    | nil =>
      obtain ⟨rfl, -⟩ := List.cons.inj heq
      exact .inl ⟨tx, rfl, hk⟩
    | cons e later =>
      obtain ⟨rfl, rfl⟩ := List.cons.inj heq
      refine .inr ⟨⟨later, tx, before, rfl, hk, fun block hb => ?_⟩, fun block hb => ?_⟩
      · exact hlater block (List.mem_cons_of_mem _ hb)
      · exact hlater block (hb ▸ List.mem_cons_self)
  · intro h
    rcases h with ⟨tx, rfl, hk⟩ | ⟨hwaiting, happend⟩
    · exact ⟨[], tx, log, rfl, hk, by simp⟩
    · exact hwaiting.cons happend

/-- The same, computed. -/
def waits (k : HashBytes) : List Effect → Bool
  | [] => false
  | .transactionAdmitted tx :: log => tx.txHash == k || waits k log
  | .write (.appendBlock block) :: log => !(txHashes [block]).contains k && waits k log
  | _ :: log => waits k log

theorem waits_of_waiting (h : Waiting k log) : waits k log = true := by
  induction log with
  | nil => simp [Waiting] at h
  | cons effect log ih =>
    unfold waits
    rcases waiting_cons.1 h with ⟨tx, rfl, hk⟩ | ⟨hwaiting, happend⟩
    · simp [hk]
    · split
      · cases ‹_ = []›
      · next heq =>
        obtain ⟨-, rfl⟩ := List.cons.inj heq
        simp [ih hwaiting]
      · next block _ heq =>
        obtain ⟨rfl, rfl⟩ := List.cons.inj heq
        simpa [ih hwaiting] using happend block rfl
      · next heq =>
        obtain ⟨-, rfl⟩ := List.cons.inj heq
        exact ih hwaiting

/-- No transaction waits that is on a chain the log installs. -/
def overtakesNothing : List Effect → Bool
  | [] => true
  | .write (.overwriteBlocks chain) :: log =>
    (txHashes chain).all (fun k => !waits k log) && overtakesNothing log
  | _ :: log => overtakesNothing log

theorem not_waiting_of_overtakesNothing {later before : List Effect} {chain : List Block}
    (h : overtakesNothing (later ++ .write (.overwriteBlocks chain) :: before) = true)
    (hwaiting : Waiting k before) : k ∉ txHashes chain := by
  induction later with
  | nil =>
    simp only [List.nil_append, overtakesNothing, Bool.and_eq_true, List.all_eq_true] at h
    intro hk
    simpa [waits_of_waiting hwaiting] using h.1 k hk
  | cons effect later ih =>
    rw [List.cons_append] at h
    unfold overtakesNothing at h
    split at h
    · cases ‹_ = []›
    · next heq =>
      obtain ⟨-, rfl⟩ := List.cons.inj heq
      exact ih (Bool.and_eq_true _ _ ▸ h).2
    · next heq =>
      obtain ⟨-, rfl⟩ := List.cons.inj heq
      exact ih h

/-- The chain of one block with the first payment. -/
def paymentSnapshot : ChainSnapshot where
  snapshot := { ((LedgerState.fromGenesis sampleGenesis).transfer payment.transaction).snapshot with
    height := 1, tipHash := paymentBlock.blockHash, lastSlot := 0 }
  blocks := [paymentBlock]
  receipts := []
  proposalVotes := []

/-- A payment of validator 2. -/
def returnPayment : SignedTransaction := signedTransfer 2 (validatorAccount 1) 3 0

/-- The log admits the two payments only, and the chains it leads to hold the first one only. -/
def twoPayments (log : List Effect) : Bool :=
  (log.all fun
    | .transactionAdmitted tx => tx == payment || tx == returnPayment
    | _ => true) &&
  log.tails.all fun earlier => (chainTransactions (chainAfter earlier)).all (· == payment) &&
    decide ((chainTransactions (chainAfter earlier)).length + earlier.length < 2 ^ 64)

theorem distinguished_of_twoPayments (h : twoPayments log = true) : Distinguished log := by
  simp only [twoPayments, Bool.and_eq_true, List.all_eq_true, List.mem_tails, beq_iff_eq,
    decide_eq_true_eq] at h
  refine ⟨fun tx htx earlier hearlier t ht heq => ?_, fun earlier hearlier => (h.2 earlier hearlier).2⟩
  obtain rfl : t = payment := (h.2 earlier hearlier).1 t ht
  rcases Bool.or_eq_true_iff.1 (h.1 _ htx) with htx | htx
  · rw [beq_iff_eq.1 htx]
  · rw [beq_iff_eq.1 htx] at heq
    exact absurd heq (by decide +kernel)

/-- A child of the block with the first payment, and the chain of both with the votes of two validators. -/
def paymentChild : Block :=
  let C := (sampleEnv 1).consensus
  signedBlock 2 paymentBlock.blockHash 1 (C.epochForSlot 1) (C.proposerForSlot 1) []
    ((LedgerState.fromGenesis sampleGenesis).transfer payment.transaction)

def childSnapshot : ChainSnapshot where
  snapshot := { ((LedgerState.fromGenesis sampleGenesis).transfer payment.transaction).snapshot with
    height := 2, tipHash := paymentChild.blockHash, lastSlot := 1 }
  blocks := [paymentBlock, paymentChild]
  receipts := []
  proposalVotes := [signedProposalVote 2 paymentChild, signedProposalVote 3 paymentChild]

theorem payment_block_executes :
    Executes (sampleEnv 1) {b | b ∈ [paymentBlock, paymentChild]} paymentBlock := by
  have happly : ((LedgerState.fromGenesis sampleGenesis).applyBlock rollingHashing sampleCrypto
      paymentBlock).toOption.isSome = true := by decide +kernel
  obtain ⟨next, hnext⟩ := Option.isSome_iff_exists.1 happly
  have hsound : ∀ b ∈ ([] : List Block), Sound rollingHashing {b | b ∈ [paymentBlock, paymentChild]} b :=
    List.forall_mem_nil _
  exact .of_chain (E := sampleEnv 1) (.of_nodup (by decide +kernel) (by decide +kernel))
    hsound ⟨rfl, trivial⟩ rfl (toOption_eq_some.1 hnext)

/-- Node 1 admits both payments and takes a block with the first, and then adopts a longer chain with it:
the other payment waits, and is on no block of the chain. -/
theorem return_payment_is_apart : ∃ n, Reachable (sampleEnv 1)
      (SafelyArrives (sampleEnv 1) {b | b ∈ [paymentBlock, paymentChild]}) n ∧
    n.ledger.snapshot.tipHash = paymentChild.blockHash ∧ payment.txHash ∈ txHashes n.blocks ∧
    n.mempool[returnPayment.txHash]? = some returnPayment ∧
    returnPayment.txHash ∉ txHashes n.blocks := by
  have harrives : ∀ event ∈ [Event.received 2 (.transactionBroadcast payment),
      .received 2 (.transactionBroadcast returnPayment), .received 4 (.blockProposal paymentBlock),
      .received 3 (.syncResponse 3 childSnapshot)], ∀ n,
      SafelyArrives (sampleEnv 1) {b | b ∈ [paymentBlock, paymentChild]} n event := by
    intro event he n _
    simp only [List.mem_cons, List.not_mem_nil, or_false] at he
    rcases he with rfl | rfl | rfl | rfl
    · exact ⟨by simp [BlocksFrom, Event.blocks], by simp [Event.gossiped]⟩
    · exact ⟨by simp [BlocksFrom, Event.blocks], by simp [Event.gossiped]⟩
    · refine ⟨by simp [BlocksFrom, Event.blocks], fun b hb _ _ => ?_⟩
      obtain rfl := List.mem_singleton.1 hb
      exact payment_block_executes
    · exact ⟨by simp [BlocksFrom, Event.blocks, childSnapshot], by simp [Event.gossiped]⟩
  obtain ⟨n, hn, hvalues⟩ := Reachable.of_map (E := sampleEnv 1) 8 _ (some 1)
    (fun n => (twoPayments n.effects && overtakesNothing n.effects && n.builtBlocks.isEmpty,
      n.ledger.snapshot.tipHash, decide (payment.txHash ∈ txHashes n.blocks),
      n.mempool[returnPayment.txHash]?))
    (true, paymentChild.blockHash, true, some returnPayment) harrives (by decide +kernel)
  simp only [Prod.mk.injEq, Bool.and_eq_true, decide_eq_true_eq, List.isEmpty_iff] at hvalues
  obtain ⟨⟨⟨hlog, hreplaced⟩, hbuilt⟩, htip, hon, hwaits⟩ := hvalues
  refine ⟨n, hn, htip, hon, hwaits, mempool_apart_from_chain (sampleEnv 1) _ (by decide +kernel) n hn
    (fun _ => ⟨.of_nodup (by decide +kernel) (by decide +kernel), sample_signer (by decide),
      by simp [hbuilt]⟩)
    (distinguished_of_twoPayments hlog) (fun later chain before heq k hwaiting => ?_) _ _ hwaits⟩
  rw [heq] at hreplaced
  exact not_waiting_of_overtakesNothing hreplaced hwaiting

/-- A sync response with the block of a waiting payment is adopted: the payment is in the block and
still in the mempool. -/
theorem synced_payment_stays_in_mempool : ∃ n, Reachable (sampleEnv 1) AnyEvent n ∧
    n.mempool[payment.txHash]? = some payment ∧ payment.txHash ∈ txHashes n.blocks := by
  obtain ⟨n, hn, hvalues⟩ := Reachable.of_map (E := sampleEnv 1) (P := AnyEvent) 8
    [.received 2 (.transactionBroadcast payment), .received 3 (.syncResponse 3 paymentSnapshot)]
    (some 1) (fun n => (n.mempool[payment.txHash]?, decide (payment.txHash ∈ txHashes n.blocks)))
    (some payment, true) (fun _ _ _ => trivial) (by decide +kernel)
  simp only [Prod.mk.injEq, decide_eq_true_eq] at hvalues
  exact ⟨n, hn, hvalues⟩

end Entangrid
