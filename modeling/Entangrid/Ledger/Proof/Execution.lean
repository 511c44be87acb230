import Entangrid.Ledger.Proof.Supply

/-!
# Exactly-once execution

A replay executes the transactions of its blocks one after the other. `executions` lists them, each
with the ledger just before it; the nonces of an account count up from its first one, modulo `2 ^ 64`,
and its balance is what it started with, received and sent, modulo `2 ^ 64`.

* `Run`: a sequence of executions from a ledger to a ledger.
* `Run.nonces`, `Run.nonceOf`, `Run.balanceOf`: nonces and balances along a run, in closed form.
* `replay_exactly_once_iff`: a replay executes every transaction exactly once and takes from no other
  account exactly when no account sends `2 ^ 64` transactions and no credit overflows.
-/

namespace Entangrid

namespace LedgerState

section

variable {H : Hashing} {crypto : CryptoBackend} {l l' : LedgerState} {a : AccountId}
variable {steps : List (LedgerState × SignedTransaction)}

/-! ## The executions of a chain -/

/-- The transactions of a list, each with the ledger just before it. -/
def transactionSteps (l : LedgerState) :
    List SignedTransaction → List (LedgerState × SignedTransaction)
  | [] => []
  | tx :: txs => (l, tx) :: transactionSteps (l.transfer tx.transaction) txs

/-- The ledger after the transactions of a block, under the block's hash, number and slot. -/
def afterBlock (l : LedgerState) (block : Block) : LedgerState :=
  let after := block.transactions.foldl (fun l tx => l.transfer tx.transaction) l
  ⟨{ after.snapshot with
     tipHash := block.blockHash
     height := block.header.blockNumber
     lastSlot := block.header.slot }⟩

/-- The transactions of a chain, each with the ledger just before it. -/
def executions (l : LedgerState) : List Block → List (LedgerState × SignedTransaction)
  | [] => []
  | block :: blocks => l.transactionSteps block.transactions ++ executions (l.afterBlock block) blocks

/-- What an account receives from the transactions of a list. -/
def received (account : AccountId) (txs : List SignedTransaction) : Nat :=
  (txs.map fun tx => if tx.transaction.toAccount = account then tx.transaction.amount else 0).sum

/-- What an account sends to others; a transfer to oneself is not debited. -/
def spent (account : AccountId) (txs : List SignedTransaction) : Nat :=
  (txs.map fun tx =>
    if tx.transaction.fromAccount = account ∧ tx.transaction.toAccount ≠ account then
      tx.transaction.amount else 0).sum

/-- Every transaction of a chain with these executions, and this ledger at its end, is executed exactly
once, under its sender's signature and at no other account's expense. -/
structure ExactlyOnce (H : Hashing) (crypto : CryptoBackend)
    (steps : List (LedgerState × SignedTransaction)) (final : LedgerState) : Prop where
  nonces : ∀ a, ((steps.map (·.2)).filter (·.transaction.fromAccount = a)).map (·.transaction.nonce) =
    List.range (sentBy a (steps.map (·.2)))
  final : ∀ a, final.nonceOf a = sentBy a (steps.map (·.2))
  once : ((steps.map (·.2)).map fun tx => (tx.transaction.fromAccount, tx.transaction.nonce)).Nodup
  verified : ∀ step ∈ steps, step.1.validateTx H crypto step.2 = .ok () ∧
    step.2.transaction.fromAccount = validatorAccount step.2.signerId ∧
    crypto.verify step.2.signerId step.2.txHash step.2.signature = .ok true
  balances : ∀ step ∈ steps, ∀ a, step.2.transaction.fromAccount ≠ a →
    step.1.balanceOf a ≤ (step.1.transfer step.2.transaction).balanceOf a

/-! ## Runs -/

/-- A sequence of executions. Between two of them the tip may change, the accounts do not. -/
inductive Run (H : Hashing) (crypto : CryptoBackend) :
    LedgerState → List (LedgerState × SignedTransaction) → LedgerState → Prop
  | nil (l : LedgerState) : Run H crypto l [] l
  | execute {l l' : LedgerState} {tx : SignedTransaction}
      {steps : List (LedgerState × SignedTransaction)}
      (hvalid : l.validateTx H crypto tx = .ok ())
      (hle : tx.transaction.amount ≤ l.balanceOf tx.transaction.fromAccount)
      (rest : Run H crypto (l.transfer tx.transaction) steps l') :
      Run H crypto l ((l, tx) :: steps) l'
  | retip {l l₁ l' : LedgerState} {steps : List (LedgerState × SignedTransaction)}
      (hbalances : l₁.snapshot.balances = l.snapshot.balances)
      (hnonces : l₁.snapshot.nonces = l.snapshot.nonces) (rest : Run H crypto l₁ steps l') :
      Run H crypto l steps l'

theorem run_applyTransactions {txs : List SignedTransaction} {l₁ l' : LedgerState}
    (h : l.applyTransactions H crypto txs = .ok l₁) (rest : Run H crypto l₁ steps l') :
    Run H crypto l (l.transactionSteps txs ++ steps) l' ∧
      l₁ = txs.foldl (fun l tx => l.transfer tx.transaction) l := by
  induction txs generalizing l with
  | nil =>
    cases h
    exact ⟨rest, rfl⟩
  | cons tx txs ih =>
    obtain ⟨l₂, h₂, h⟩ := except_bind_ok.1 h
    obtain ⟨_, hvalid, -⟩ := except_bind_ok.1 h₂
    obtain ⟨hle, rfl⟩ := validateAndApply_ok h₂
    obtain ⟨hrun, hlast⟩ := ih h
    exact ⟨.execute hvalid hle hrun, hlast⟩

theorem run_applyBlocks {blocks : List Block} (h : l.applyBlocks H crypto blocks = .ok l') :
    Run H crypto l (l.executions blocks) l' := by
  induction blocks generalizing l with
  | nil =>
    cases h
    exact .nil _
  | cons block blocks ih =>
    obtain ⟨l₂, h₂, h⟩ := except_bind_ok.1 h
    obtain ⟨l₁, h₁, -, rfl⟩ := applyBlock_ok h₂
    have hlast := (run_applyTransactions h₁ (.nil _)).2
    have hafter : l.afterBlock block = ⟨{ l₁.snapshot with
        tipHash := block.blockHash
        height := block.header.blockNumber
        lastSlot := block.header.slot }⟩ := by
      rw [hlast]
      rfl
    rw [executions, hafter]
    have hrest := ih h
    refine (run_applyTransactions h₁ (.retip ?_ ?_ hrest)).1 <;> rfl

theorem transactionSteps_map_snd (txs : List SignedTransaction) :
    (l.transactionSteps txs).map (·.2) = txs := by
  induction txs generalizing l with
  | nil => rfl
  | cons tx txs ih => rw [transactionSteps, List.map_cons, ih]

theorem executions_map_snd (blocks : List Block) :
    (l.executions blocks).map (·.2) = blocks.flatMap (·.transactions) := by
  induction blocks generalizing l with
  | nil => rfl
  | cons block blocks ih =>
    rw [executions, List.map_append, transactionSteps_map_snd, ih, List.flatMap_cons]

/-! ## Nonces along a run -/

theorem sentBy_cons (tx : SignedTransaction) (txs : List SignedTransaction) :
    sentBy a (tx :: txs) = sentBy a txs + if tx.transaction.fromAccount = a then 1 else 0 := by
  simp [sentBy, List.countP_cons]

theorem nonceOf_transfer_mod {t : Transaction} (ha : l.nonceOf a < 2 ^ 64) :
    (l.transfer t).nonceOf a = (l.nonceOf a + if t.fromAccount = a then 1 else 0) % 2 ^ 64 := by
  by_cases hfrom : t.fromAccount = a
  · subst hfrom
    rw [if_pos rfl, nonceOf, transfer, Std.ExtTreeMap.getD_insert_self]
    rfl
  · rw [nonceOf_transfer_of_ne hfrom, if_neg hfrom, Nat.add_zero, Nat.mod_eq_of_lt ha]

/-- The nonce of an account counts what it sent. -/
theorem Run.nonceOf (h : Run H crypto l steps l') (ha : l.nonceOf a < 2 ^ 64) :
    l'.nonceOf a = (l.nonceOf a + sentBy a (steps.map (·.2))) % 2 ^ 64 := by
  induction h with
  | nil l => simpa [sentBy] using (Nat.mod_eq_of_lt ha).symm
  | @execute l l' tx steps hvalid hle rest ih =>
    have hnext := nonceOf_transfer_mod (t := tx.transaction) ha
    simp only [List.map_cons, sentBy_cons]
    rw [ih (by rw [hnext]; exact Nat.mod_lt _ (Nat.two_pow_pos 64)), hnext, Nat.mod_add_mod]
    congr 1
    omega
  | @retip l l₁ l' steps hbalances hnonces rest ih =>
    have hsame : l₁.nonceOf a = l.nonceOf a := by
      rw [LedgerState.nonceOf, hnonces, LedgerState.nonceOf]
    rw [ih (by rw [hsame]; exact ha), hsame]

/-- The nonces of an account count up from its first one. -/
theorem Run.nonces (h : Run H crypto l steps l') (ha : l.nonceOf a < 2 ^ 64) :
    ((steps.map (·.2)).filter (·.transaction.fromAccount = a)).map (·.transaction.nonce) =
      (List.range (sentBy a (steps.map (·.2)))).map fun i => (l.nonceOf a + i) % 2 ^ 64 := by
  induction h with
  | nil l => rfl
  | @execute l l' tx steps hvalid hle rest ih =>
    have hnext := nonceOf_transfer_mod (t := tx.transaction) ha
    have htail := ih (by rw [hnext]; exact Nat.mod_lt _ (Nat.two_pow_pos 64))
    rw [hnext] at htail
    rw [List.map_cons, sentBy_cons]
    by_cases hfrom : tx.transaction.fromAccount = a
    · -- The transaction carries the account's nonce, the later ones those after it.
      rw [List.filter_cons_of_pos (by simpa using hfrom), List.map_cons, htail, if_pos hfrom,
        List.range_succ_eq_map, List.map_cons, List.map_map, ← validateTx_nonce hvalid, hfrom]
      congr 1
      · rw [Nat.add_zero, Nat.mod_eq_of_lt ha]
      · refine List.map_congr_left fun i _ => ?_
        rw [Function.comp_apply, Nat.mod_add_mod]
        congr 1
        omega
    · rw [List.filter_cons_of_neg (by simpa using hfrom), htail, if_neg hfrom, Nat.add_zero,
        Nat.add_zero, Nat.mod_eq_of_lt ha]
  | @retip l l₁ l' steps hbalances hnonces rest ih =>
    have hsame : l₁.nonceOf a = l.nonceOf a := by
      rw [LedgerState.nonceOf, hnonces, LedgerState.nonceOf]
    rw [ih (by rw [hsame]; exact ha), hsame]

/-- Counting nonces from zero gives every pair of sender and nonce once. -/
theorem nodup_of_nonces {txs : List SignedTransaction}
    (h : ∀ a, (txs.filter (·.transaction.fromAccount = a)).map (·.transaction.nonce) =
      List.range (sentBy a txs)) :
    (txs.map fun tx => (tx.transaction.fromAccount, tx.transaction.nonce)).Nodup := by
  rw [List.nodup_iff_count_le_one]
  rintro ⟨a, nonce⟩
  have hcount : (txs.map fun tx => (tx.transaction.fromAccount, tx.transaction.nonce)).count (a, nonce) =
      ((txs.filter (·.transaction.fromAccount = a)).map (·.transaction.nonce)).count nonce := by
    rw [List.count_eq_countP, List.countP_map, List.count_eq_countP, List.countP_map, List.countP_filter]
    refine List.countP_congr fun tx _ => ?_
    simp [and_comm]
  rw [hcount, h a]
  exact List.nodup_iff_count_le_one.1 List.nodup_range nonce

/-! ## Balances along a run -/

theorem received_cons (tx : SignedTransaction) (txs : List SignedTransaction) :
    received a (tx :: txs) =
      (if tx.transaction.toAccount = a then tx.transaction.amount else 0) + received a txs := by
  simp [received]

theorem spent_cons (tx : SignedTransaction) (txs : List SignedTransaction) :
    spent a (tx :: txs) =
      (if tx.transaction.fromAccount = a ∧ tx.transaction.toAccount ≠ a then tx.transaction.amount
        else 0) + spent a txs := by
  simp [spent]

theorem balanceOf_transfer_to (l : LedgerState) (t : Transaction) :
    (l.transfer t).balanceOf t.toAccount = (l.balanceOf t.toAccount + t.amount) % 2 ^ 64 := by
  simp only [balanceOf, transfer]
  rw [Std.ExtTreeMap.getD_insert, if_pos (by simp)]
  rfl

theorem balanceOf_transfer_of_ne {t : Transaction} (hto : t.toAccount ≠ a) :
    (l.transfer t).balanceOf a =
      if t.fromAccount = a then l.balanceOf t.fromAccount - t.amount else l.balanceOf a := by
  simp only [balanceOf, transfer]
  rw [Std.ExtTreeMap.getD_insert, if_neg (by simpa using hto), Std.ExtTreeMap.getD_insert]
  simp

/-- A transfer credits and debits modulo `2 ^ 64`. -/
theorem balanceOf_transfer {t : Transaction} (hle : t.amount ≤ l.balanceOf t.fromAccount)
    (ha : l.balanceOf a < 2 ^ 64) :
    ((l.transfer t).balanceOf a : ℤ) =
      (l.balanceOf a + (if t.toAccount = a then t.amount else 0 : ℕ) -
        (if t.fromAccount = a ∧ t.toAccount ≠ a then t.amount else 0 : ℕ)) % 2 ^ 64 := by
  by_cases hto : t.toAccount = a
  · subst hto
    rw [balanceOf_transfer_to, if_pos rfl, if_neg (by simp)]
    simp
  · rw [balanceOf_transfer_of_ne hto, if_neg hto]
    by_cases hfrom : t.fromAccount = a
    · subst hfrom
      rw [if_pos rfl, if_pos ⟨rfl, hto⟩]
      omega
    · rw [if_neg hfrom, if_neg (by simp [hfrom])]
      omega

/-- The balance of an account just before an execution. -/
theorem Run.balanceOf (h : Run H crypto l steps l') (ha : l.balanceOf a < 2 ^ 64)
    {earlier later : List (LedgerState × SignedTransaction)} {step : LedgerState × SignedTransaction}
    (hsteps : steps = earlier ++ step :: later) :
    (step.1.balanceOf a : ℤ) =
      (l.balanceOf a + received a (earlier.map (·.2)) - spent a (earlier.map (·.2))) % 2 ^ 64 := by
  induction h generalizing earlier with
  | nil l => simp at hsteps
  | @execute l l' tx steps hvalid hle rest ih =>
    cases earlier with
    | nil =>
      obtain ⟨rfl, -⟩ := List.cons.inj hsteps
      have h₁ : received a [] = 0 := rfl
      have h₂ : spent a [] = 0 := rfl
      simp only [List.map_nil, h₁, h₂]
      omega
    | cons first earlier =>
      rw [List.cons_append] at hsteps
      obtain ⟨rfl, hlater⟩ := List.cons.inj hsteps
      have hnext := balanceOf_transfer hle ha
      have hstep := ih (by omega) hlater
      rw [hnext] at hstep
      simp only [List.map_cons, received_cons, spent_cons]
      omega
  | @retip l l₁ l' steps hbalances hnonces rest ih =>
    have hsame : l₁.balanceOf a = l.balanceOf a := by
      rw [LedgerState.balanceOf, hbalances, LedgerState.balanceOf]
    rw [ih (by rw [hsame]; exact ha) hsteps, hsame]

theorem Run.balanceOf_lt (h : Run H crypto l steps l') (ha : l.balanceOf a < 2 ^ 64)
    {step : LedgerState × SignedTransaction} (hstep : step ∈ steps) :
    step.1.balanceOf a < 2 ^ 64 := by
  obtain ⟨earlier, later, hsteps⟩ := List.append_of_mem hstep
  have hbalance := h.balanceOf ha hsteps
  omega

theorem Run.validated (h : Run H crypto l steps l') {step : LedgerState × SignedTransaction}
    (hstep : step ∈ steps) : step.1.validateTx H crypto step.2 = .ok () ∧
      step.2.transaction.amount ≤ step.1.balanceOf step.2.transaction.fromAccount := by
  induction h with
  | nil l => exact absurd hstep List.not_mem_nil
  | execute hvalid hle rest ih =>
    rcases List.mem_cons.1 hstep with rfl | hstep
    · exact ⟨hvalid, hle⟩
    · exact ih hstep
  | retip hbalances hnonces rest ih => exact ih hstep

theorem validateTx_signature {tx : SignedTransaction} (h : l.validateTx H crypto tx = .ok ()) :
    tx.transaction.fromAccount = validatorAccount tx.signerId ∧
      crypto.verify tx.signerId tx.txHash tx.signature = .ok true := by
  obtain ⟨_, -, h⟩ := except_bind_ok.1 h
  obtain ⟨_, hfrom, h⟩ := except_bind_ok.1 h
  obtain ⟨verified, hverify, h⟩ := except_bind_ok.1 h
  obtain ⟨_, hverified, -⟩ := except_bind_ok.1 h
  obtain rfl : verified = true := by simpa [rejectIf_ok] using hverified
  refine ⟨by simpa [rejectIf_ok] using hfrom, ?_⟩
  cases hv : crypto.verify tx.signerId tx.txHash tx.signature with
  | error detail => simp [hv, ofCrypto] at hverify
  | ok b => simpa [hv, ofCrypto] using hverify

/-- Only the sender of a transfer and, where the credit overflows, its receiver lose by it. -/
theorem balanceOf_le_transfer_iff {t : Transaction}
    (hu64 : ∀ a, l.balanceOf a < 2 ^ 64) (hle : t.amount ≤ l.balanceOf t.fromAccount) :
    (∀ a, t.fromAccount ≠ a → l.balanceOf a ≤ (l.transfer t).balanceOf a) ↔
      (t.toAccount ≠ t.fromAccount → l.balanceOf t.toAccount + t.amount < 2 ^ 64) := by
  have hfrom := hu64 t.fromAccount
  constructor
  · intro h hne
    have hkeeps := h t.toAccount hne.symm
    rw [balanceOf_transfer_to] at hkeeps
    have hto := hu64 t.toAccount
    omega
  · intro h a hne
    by_cases hto : t.toAccount = a
    · subst hto
      rw [balanceOf_transfer_to, Nat.mod_eq_of_lt (h hne.symm)]
      omega
    · rw [balanceOf_transfer_of_ne hto, if_neg hne]

end

/-- The balance an account has after some transactions of a replay: what it started with and received,
less what it sent to others, modulo `2 ^ 64`. -/
def runningBalance (genesis : GenesisConfig) (account : AccountId) (txs : List SignedTransaction) : ℤ :=
  ((genesis.initialBalances.getD account 0 : ℕ) + received account txs - spent account txs) % 2 ^ 64

/-- **Exactly-once execution**: a chain that replays executes every transaction exactly once, in nonce
order and at no other account's expense, exactly when every account sends fewer than `2 ^ 64`
transactions and no credit to another account overflows. -/
theorem replay_exactly_once_iff (H : Hashing) (crypto : CryptoBackend) (genesis : GenesisConfig)
    (blocks : List Block) (l : LedgerState)
    (hu64 : ∀ account, genesis.initialBalances.getD account 0 < 2 ^ 64)
    (hok : replayBlocks H crypto genesis blocks = .ok l) :
    ExactlyOnce H crypto ((fromGenesis genesis).executions blocks) l ↔
      (∀ account, sentBy account (blocks.flatMap (·.transactions)) < 2 ^ 64) ∧
      ∀ earlier tx later, blocks.flatMap (·.transactions) = earlier ++ tx :: later →
        tx.transaction.toAccount ≠ tx.transaction.fromAccount →
        runningBalance genesis tx.transaction.toAccount earlier + tx.transaction.amount < 2 ^ 64 := by
  have hrun : Run H crypto (fromGenesis genesis) ((fromGenesis genesis).executions blocks) l :=
    run_applyBlocks hok
  have htxs := executions_map_snd (l := fromGenesis genesis) blocks
  have hzero : ∀ a, (fromGenesis genesis).nonceOf a = 0 := fun a => by simp [nonceOf, fromGenesis]
  have hfinal : ∀ a, l.nonceOf a = sentBy a (blocks.flatMap (·.transactions)) % 2 ^ 64 := fun a => by
    rw [hrun.nonceOf (by simp [hzero]), hzero, Nat.zero_add, htxs]
  have hiff : ∀ step ∈ (fromGenesis genesis).executions blocks, _ := fun step hstep =>
    balanceOf_le_transfer_iff (fun a => hrun.balanceOf_lt (hu64 a) hstep) (hrun.validated hstep).2
  constructor
  · refine fun h => ⟨fun a => ?_, fun earlier tx later hsplit hne => ?_⟩
    · have hcount := h.final a
      rw [htxs, hfinal] at hcount
      rw [← hcount]
      exact Nat.mod_lt _ (Nat.two_pow_pos 64)
    · rw [← htxs] at hsplit
      obtain ⟨before, after, hsteps, rfl, hafter⟩ := List.map_eq_append_iff.1 hsplit
      obtain ⟨step, rest, rfl, rfl, -⟩ := List.map_eq_cons_iff.1 hafter
      have hmem : step ∈ (fromGenesis genesis).executions blocks := by simp [hsteps]
      have hfits := (hiff step hmem).1 (h.balances step hmem) hne
      have hbalance := hrun.balanceOf (hu64 step.2.transaction.toAccount) hsteps
      rw [runningBalance, show genesis.initialBalances.getD _ 0 = (fromGenesis genesis).balanceOf _ from
        rfl, ← hbalance]
      exact_mod_cast hfits
  · rintro ⟨hsent, hcredit⟩
    have hnonces : ∀ a, (((fromGenesis genesis).executions blocks).map (·.2)
        |>.filter (·.transaction.fromAccount = a)).map (·.transaction.nonce) =
        List.range (sentBy a (((fromGenesis genesis).executions blocks).map (·.2))) := fun a => by
      have hlist := hrun.nonces (a := a) (by simp [hzero])
      rw [hzero] at hlist
      rw [hlist]
      refine (List.map_congr_left fun i hi => ?_).trans (List.map_id _)
      have hlt := hsent a
      rw [← htxs] at hlt
      rw [Nat.zero_add, Nat.mod_eq_of_lt ((List.mem_range.1 hi).trans hlt), id]
    exact
      { nonces := hnonces
        final := fun a => by rw [hfinal, htxs, Nat.mod_eq_of_lt (hsent a)]
        once := nodup_of_nonces hnonces
        verified := fun step hstep =>
          ⟨(hrun.validated hstep).1, validateTx_signature (hrun.validated hstep).1⟩
        balances := fun step hstep => by
          refine (hiff step hstep).2 fun hne => ?_
          obtain ⟨before, after, hsteps⟩ := List.append_of_mem hstep
          have hbalance := hrun.balanceOf (hu64 step.2.transaction.toAccount) hsteps
          have hfits := hcredit (before.map (·.2)) step.2 (after.map (·.2))
            (by rw [← htxs, hsteps, List.map_append, List.map_cons]) hne
          rw [runningBalance, show genesis.initialBalances.getD _ 0 = (fromGenesis genesis).balanceOf _
            from rfl, ← hbalance] at hfits
          exact_mod_cast hfits }

/-- The sample chain whose one transaction goes to another account is executed exactly once. -/
theorem transfer_chain_exactly_once :
    ∃ l, replayBlocks rollingHashing sampleCrypto sampleGenesis (transferChain "validator-2") =
        .ok l ∧
      ExactlyOnce rollingHashing sampleCrypto
        ((fromGenesis sampleGenesis).executions (transferChain "validator-2")) l := by
  obtain ⟨l, hl⟩ := replay_transferChain
  have htxs : (transferChain "validator-2").flatMap (·.transactions) =
      [signedTransfer 1 "validator-2" 10 0] := rfl
  refine ⟨l, hl, (replay_exactly_once_iff _ _ _ _ l (fun account => ?_) hl).2 ⟨fun account => ?_, ?_⟩⟩
  · exact lt_of_le_of_lt (sampleGenesis.initialBalances.getD_le_total account) (by decide +kernel)
  · exact lt_of_le_of_lt List.countP_le_length (by decide +kernel)
  · intro earlier tx later hsplit _
    rw [htxs] at hsplit
    cases earlier with
    | nil =>
      obtain ⟨rfl, -⟩ := List.cons.inj hsplit
      decide +kernel
    | cons first earlier => simp at hsplit

/-- The sample genesis with nearly all of `2 ^ 64` on the second account. -/
def richGenesis : GenesisConfig :=
  { sampleGenesis with
    initialBalances := (sampleGenesis.initialBalances.insert "validator-2" (2 ^ 64 - 1)) }

/-- Its chain of one block, which moves 10 to that account. -/
def richChain : List Block :=
  let tx := signedTransfer 1 "validator-2" 10 0
  [signedBlock 1 empty_hash 1 0 1 [tx] ((fromGenesis richGenesis).transfer tx.transaction)]

/-- The credit overflows: the second account sends nothing and falls from `2 ^ 64 - 1` to 9. -/
theorem overflowing_credit_takes_balance :
    (∀ account, richGenesis.initialBalances.getD account 0 < 2 ^ 64) ∧
      ∃ l, replayBlocks rollingHashing sampleCrypto richGenesis richChain = .ok l ∧
        ¬ExactlyOnce rollingHashing sampleCrypto ((fromGenesis richGenesis).executions richChain) l := by
  refine ⟨fun account => ?_, ?_⟩
  · have hsample := sampleGenesis.initialBalances.getD_le_total account
    have htotal : sampleGenesis.initialBalances.total < 2 ^ 64 := by decide +kernel
    simp only [richGenesis, Std.ExtTreeMap.getD_insert]
    split_ifs <;> omega
  · have h : (replayBlocks rollingHashing sampleCrypto richGenesis richChain).toOption.isSome := by
      decide +kernel
    obtain ⟨l, hl⟩ := Option.isSome_iff_exists.1 h
    refine ⟨l, toOption_eq_some.1 hl, fun hexact => ?_⟩
    have hkeeps := hexact.balances _ List.mem_cons_self "validator-2" (by decide +kernel)
    revert hkeeps
    decide +kernel

end LedgerState

end Entangrid
