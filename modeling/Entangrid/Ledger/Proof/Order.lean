import Entangrid.Ledger.Proof.Execution

/-!
# The order of execution

Two chains may execute the same transactions in other blocks and in another order. Where both are
valid from one ledger, they lead to the same accounts, and so to the same state root; only the
transactions of different accounts can have changed places.

* `Run.accounts_eq`: the balances and nonces at the end of a run depend on what was executed.
* `applyBlocks_order_irrelevant`: the result for chains of blocks.
-/

namespace Entangrid

namespace LedgerState

section

variable {H : Hashing} {crypto : CryptoBackend} {l l' m m' : LedgerState} {a : AccountId}
variable {steps steps' : List (LedgerState × SignedTransaction)}

/-- Balances and nonces are `u64`. -/
structure InRange (l : LedgerState) : Prop where
  balance : ∀ a, l.balanceOf a < 2 ^ 64
  nonce : ∀ a, l.nonceOf a < 2 ^ 64

/-! ## Totals of what was executed -/

theorem received_perm {txs txs' : List SignedTransaction} (h : txs.Perm txs') :
    received a txs = received a txs' := (h.map _).sum_eq

theorem spent_perm {txs txs' : List SignedTransaction} (h : txs.Perm txs') :
    spent a txs = spent a txs' := (h.map _).sum_eq

theorem sentBy_perm {txs txs' : List SignedTransaction} (h : txs.Perm txs') :
    sentBy a txs = sentBy a txs' := h.countP_eq _

/-! ## The end of a run -/

/-- The balance of an account at the end of a run. -/
theorem Run.final_balanceOf (h : Run H crypto l steps l') (ha : l.balanceOf a < 2 ^ 64) :
    (l'.balanceOf a : ℤ) =
      (l.balanceOf a + received a (steps.map (·.2)) - spent a (steps.map (·.2))) % 2 ^ 64 := by
  induction h with
  | nil l =>
    have hreceived : received a [] = 0 := rfl
    have hspent : spent a [] = 0 := rfl
    simp only [List.map_nil, hreceived, hspent]
    omega
  | @execute l l' tx steps hvalid hle rest ih =>
    have hnext := balanceOf_transfer hle ha
    have hrest := ih (by omega)
    rw [hnext] at hrest
    simp only [List.map_cons, received_cons, spent_cons]
    omega
  | @retip l l₁ l' steps hbalances hnonces rest ih =>
    have hsame : l₁.balanceOf a = l.balanceOf a := by
      rw [LedgerState.balanceOf, hbalances, LedgerState.balanceOf]
    rw [ih (by rw [hsame]; exact ha), hsame]

/-- An account has a balance at the end if it had one before or was part of a transfer. -/
theorem Run.mem_balances (h : Run H crypto l steps l') :
    a ∈ l'.snapshot.balances ↔ a ∈ l.snapshot.balances ∨
      ∃ tx ∈ steps.map (·.2), tx.transaction.fromAccount = a ∨ tx.transaction.toAccount = a := by
  induction h with
  | nil l => simp
  | @execute l l' tx steps hvalid hle rest ih =>
    rw [ih]
    simp only [transfer, Std.ExtTreeMap.mem_insert, Std.compare_eq_iff_eq, List.map_cons,
      List.exists_mem_cons_iff]
    grind
  | @retip l l₁ l' steps hbalances hnonces rest ih => rw [ih, hbalances]

/-- It has a nonce if it had one before or sent something. -/
theorem Run.mem_nonces (h : Run H crypto l steps l') :
    a ∈ l'.snapshot.nonces ↔ a ∈ l.snapshot.nonces ∨
      ∃ tx ∈ steps.map (·.2), tx.transaction.fromAccount = a := by
  induction h with
  | nil l => simp
  | @execute l l' tx steps hvalid hle rest ih =>
    rw [ih]
    simp only [transfer, Std.ExtTreeMap.mem_insert, Std.compare_eq_iff_eq, List.map_cons,
      List.exists_mem_cons_iff]
    grind
  | @retip l l₁ l' steps hbalances hnonces rest ih => rw [ih, hnonces]

/-- Maps with the same keys and the same values read with a default are equal. -/
theorem eq_of_getD_eq {s t : BTreeMap AccountId Nat} (hmem : ∀ a, a ∈ s ↔ a ∈ t)
    (hget : ∀ a, s.getD a 0 = t.getD a 0) : s = t := by
  refine Std.ExtTreeMap.ext_getElem? fun a => ?_
  have hvalue := hget a
  rw [Std.ExtTreeMap.getD_eq_getD_getElem?, Std.ExtTreeMap.getD_eq_getD_getElem?] at hvalue
  have hsome := hmem a
  rw [Std.ExtTreeMap.mem_iff_isSome_getElem?, Std.ExtTreeMap.mem_iff_isSome_getElem?] at hsome
  cases hs : s[a]? with
  | none =>
    cases ht : t[a]? with
    | none => rfl
    | some y => simp [hs, ht] at hsome
  | some x =>
    cases ht : t[a]? with
    | none => simp [hs, ht] at hsome
    | some y =>
      rw [hs, ht] at hvalue
      exact congrArg some hvalue

/-- Runs of the same transactions from one ledger end with the same accounts. -/
theorem Run.accounts_eq (hl : l.InRange) (h : Run H crypto l steps m) (h' : Run H crypto l steps' m')
    (hperm : (steps.map (·.2)).Perm (steps'.map (·.2))) :
    m.snapshot.balances = m'.snapshot.balances ∧ m.snapshot.nonces = m'.snapshot.nonces := by
  constructor
  · refine eq_of_getD_eq (fun a => ?_) fun a => ?_
    · rw [h.mem_balances, h'.mem_balances]
      simp only [hperm.mem_iff]
    · have hm := h.final_balanceOf (hl.balance a)
      have hm' := h'.final_balanceOf (hl.balance a)
      rw [received_perm hperm, spent_perm hperm, ← hm'] at hm
      exact_mod_cast hm
  · refine eq_of_getD_eq (fun a => ?_) fun a => ?_
    · rw [h.mem_nonces, h'.mem_nonces]
      simp only [hperm.mem_iff]
    · have hm := h.nonceOf (hl.nonce a)
      rw [sentBy_perm hperm, ← h'.nonceOf (hl.nonce a)] at hm
      exact hm

/-! ## The order within an account -/

theorem nodup_nonces_of_lt {start count : Nat} (hcount : count ≤ 2 ^ 64) :
    ((List.range count).map fun i => (start + i) % 2 ^ 64).Nodup := by
  refine List.Nodup.map_on (fun i hi j hj heq => ?_) List.nodup_range
  rw [List.mem_range] at hi hj
  omega

/-- Two orders of a list that agree under a map without repetitions agree. -/
theorem eq_of_perm_of_map_eq {α β : Type} {f : α → β} {xs ys : List α} (hperm : xs.Perm ys)
    (hmap : xs.map f = ys.map f) (hnodup : (xs.map f).Nodup) : xs = ys := by
  have hinj := List.inj_on_of_nodup_map hnodup
  have hlength : xs.length = ys.length := hperm.length_eq
  refine List.ext_getElem hlength fun i hi hi' => ?_
  refine hinj (List.getElem_mem hi) (hperm.mem_iff.2 (List.getElem_mem hi')) ?_
  rw [← List.getElem_map f (h := by simpa using hi), ← List.getElem_map f (h := by simpa using hi')]
  simp only [hmap]

/-- The transactions of one account are executed in the same order. -/
theorem Run.order_eq (hl : l.InRange) (h : Run H crypto l steps m) (h' : Run H crypto l steps' m')
    (hperm : (steps.map (·.2)).Perm (steps'.map (·.2)))
    (hsent : sentBy a (steps.map (·.2)) ≤ 2 ^ 64) :
    (steps.map (·.2)).filter (·.transaction.fromAccount = a) =
      (steps'.map (·.2)).filter (·.transaction.fromAccount = a) := by
  have hnonces := h.nonces (hl.nonce a)
  have hnonces' := h'.nonces (hl.nonce a)
  rw [← sentBy_perm hperm] at hnonces'
  refine eq_of_perm_of_map_eq (f := (·.transaction.nonce)) (hperm.filter _)
    (hnonces.trans hnonces'.symm) ?_
  rw [hnonces]
  exact nodup_nonces_of_lt hsent

end

/-- **Execution does not depend on the order.** Chains that apply to one ledger and execute the same
transactions, in whatever blocks and order, lead to the same balances, nonces and state root, and
executed the transactions of every account (of at most `2 ^ 64`) in the same order. -/
theorem applyBlocks_order_irrelevant (H : Hashing) (crypto : CryptoBackend) (l : LedgerState)
    (hl : l.InRange) (blocks blocks' : List Block) (m m' : LedgerState)
    (hm : l.applyBlocks H crypto blocks = .ok m) (hm' : l.applyBlocks H crypto blocks' = .ok m')
    (hperm : (blocks.flatMap (·.transactions)).Perm (blocks'.flatMap (·.transactions))) :
    m.snapshot.balances = m'.snapshot.balances ∧ m.snapshot.nonces = m'.snapshot.nonces ∧
      m.stateRoot H = m'.stateRoot H ∧
      ∀ a, sentBy a (blocks.flatMap (·.transactions)) ≤ 2 ^ 64 →
        (blocks.flatMap (·.transactions)).filter (·.transaction.fromAccount = a) =
          (blocks'.flatMap (·.transactions)).filter (·.transaction.fromAccount = a) := by
  have hrun := run_applyBlocks hm
  have hrun' := run_applyBlocks hm'
  have hsteps : ((l.executions blocks).map (·.2)).Perm ((l.executions blocks').map (·.2)) := by
    rw [executions_map_snd, executions_map_snd]
    exact hperm
  obtain ⟨hbalances, hnonces⟩ := hrun.accounts_eq hl hrun' hsteps
  refine ⟨hbalances, hnonces, ?_, fun a hsent => ?_⟩
  · rw [stateRoot, hbalances, hnonces, stateRoot]
  · have horder := hrun.order_eq (a := a) hl hrun' hsteps (by rw [executions_map_snd]; exact hsent)
    rwa [executions_map_snd, executions_map_snd] at horder

/-! ## Two orders of two transfers -/

/-- A transfer of the first validator and one of the second, in one block. -/
def transfersTogether : List Block :=
  let tx := signedTransfer 1 "validator-3" 10 0
  let tx' := signedTransfer 2 "validator-3" 5 0
  let after := ((fromGenesis sampleGenesis).transfer tx.transaction).transfer tx'.transaction
  [signedBlock 1 empty_hash 1 0 1 [tx, tx'] after]

/-- The second one first, in a block of its own. -/
def transfersApart : List Block :=
  let tx := signedTransfer 1 "validator-3" 10 0
  let tx' := signedTransfer 2 "validator-3" 5 0
  let after' := (fromGenesis sampleGenesis).transfer tx'.transaction
  let first := signedBlock 1 empty_hash 1 0 1 [tx'] after'
  [first, signedBlock 2 first.blockHash 2 0 2 [tx] (after'.transfer tx.transaction)]

theorem inRange_sampleGenesis : (fromGenesis sampleGenesis).InRange where
  balance a := lt_of_le_of_lt (sampleGenesis.initialBalances.getD_le_total a) (by decide +kernel)
  nonce a := by simp [nonceOf, fromGenesis]

theorem transfers_in_two_orders : ∃ m m',
    (fromGenesis sampleGenesis).applyBlocks rollingHashing sampleCrypto transfersTogether = .ok m ∧
      (fromGenesis sampleGenesis).applyBlocks rollingHashing sampleCrypto transfersApart = .ok m' ∧
      m.stateRoot rollingHashing = m'.stateRoot rollingHashing := by
  have hm : ((fromGenesis sampleGenesis).applyBlocks rollingHashing sampleCrypto
      transfersTogether).toOption.isSome := by
    decide +kernel
  have hm' : ((fromGenesis sampleGenesis).applyBlocks rollingHashing sampleCrypto
      transfersApart).toOption.isSome := by
    decide +kernel
  obtain ⟨m, hm⟩ := Option.isSome_iff_exists.1 hm
  obtain ⟨m', hm'⟩ := Option.isSome_iff_exists.1 hm'
  rw [toOption_eq_some] at hm hm'
  refine ⟨m, m', hm, hm', (applyBlocks_order_irrelevant rollingHashing sampleCrypto
    (fromGenesis sampleGenesis) inRange_sampleGenesis transfersTogether transfersApart m m' hm hm'
    ?_).2.2.1⟩
  exact List.Perm.swap _ _ []

end LedgerState

end Entangrid
