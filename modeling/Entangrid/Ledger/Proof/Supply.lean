import Entangrid.Lib.MapTotal
import Entangrid.Sample

/-!
# Supply and nonces over a replay

What a replayed chain does to the sum of the balances and to the nonces. `transfer` reads both
balances before it writes either, so a transfer to oneself keeps the credit and loses the debit:
it mints its amount.

* `Accounting`: the account of a stretch of transactions, closed under concatenation.
* `NoncesCount`: nonces count the transactions sent, so a replayed one has a lower nonce than its
  sender.
* `replay_supply_conserved_iff`: a replay conserves the supply and never overflows exactly when no
  self-transfer moves an amount and no account sends `2 ^ 64` transactions.
-/

namespace Entangrid

namespace LedgerState

/-- The sum of all balances. -/
def supply (l : LedgerState) : Nat := l.snapshot.balances.total

/-- The two additions of `apply_transaction` stay below `2 ^ 64`. -/
def AdditionsFit (l : LedgerState) (t : Transaction) : Prop :=
  l.balanceOf t.toAccount + t.amount < 2 ^ 64 ∧ l.nonceOf t.fromAccount + 1 < 2 ^ 64

/-- They do for each transaction of a list, at the ledger it is applied to. -/
def TransactionsFit (l : LedgerState) : List SignedTransaction → Prop
  | [] => True
  | tx :: txs => l.AdditionsFit tx.transaction ∧ TransactionsFit (l.transfer tx.transaction) txs

/-- They do for each transaction of each block. -/
def BlocksFit (H : Hashing) (crypto : CryptoBackend) (l : LedgerState) : List Block → Prop
  | [] => True
  | block :: blocks =>
    l.TransactionsFit block.transactions ∧
      ∀ l', l.applyBlock H crypto block = .ok l' → BlocksFit H crypto l' blocks

/-- What the self-transfers of a list mint. -/
def minted (txs : List SignedTransaction) : Nat :=
  (txs.map fun tx =>
    if tx.transaction.fromAccount = tx.transaction.toAccount then tx.transaction.amount else 0).sum

/-- How many transactions of a list an account sends. -/
def sentBy (account : AccountId) (txs : List SignedTransaction) : Nat :=
  txs.countP (·.transaction.fromAccount = account)

theorem minted_append (txs txs' : List SignedTransaction) :
    minted (txs ++ txs') = minted txs + minted txs' := by
  simp [minted]

theorem sentBy_append (account : AccountId) (txs txs' : List SignedTransaction) :
    sentBy account (txs ++ txs') = sentBy account txs + sentBy account txs' := by
  simp [sentBy]

theorem minted_eq_zero_iff {txs : List SignedTransaction} :
    minted txs = 0 ↔ ∀ tx ∈ txs,
      tx.transaction.fromAccount = tx.transaction.toAccount → tx.transaction.amount = 0 := by
  simp [minted, List.sum_eq_zero_iff_forall_eq_nat]

/-! ## One transfer -/

section Transfer

variable {l : LedgerState} {t : Transaction}

theorem balanceOf_le_supply (l : LedgerState) (a : AccountId) : l.balanceOf a ≤ l.supply :=
  l.snapshot.balances.getD_le_total a

/-- A covered transfer mints its amount if it goes to the sender, and nothing otherwise. -/
theorem supply_transfer (hle : t.amount ≤ l.balanceOf t.fromAccount)
    (hfit : l.balanceOf t.toAccount + t.amount < 2 ^ 64) :
    (l.transfer t).supply =
      l.supply + if t.fromAccount = t.toAccount then t.amount else 0 := by
  have hwrap : u64Add (l.balanceOf t.toAccount) t.amount = l.balanceOf t.toAccount + t.amount :=
    Nat.mod_eq_of_lt hfit
  have h1 := l.snapshot.balances.total_insert t.fromAccount (l.balanceOf t.fromAccount - t.amount)
  have h2 := (l.snapshot.balances.insert t.fromAccount
    (l.balanceOf t.fromAccount - t.amount)).total_insert t.toAccount
    (l.balanceOf t.toAccount + t.amount)
  simp only [supply, transfer, hwrap]
  rw [Std.ExtTreeMap.getD_insert] at h2
  simp only [balanceOf] at hle h1 h2 ⊢
  split_ifs with heq
  · rw [if_pos (by simpa using heq)] at h2
    rw [← heq] at h2 ⊢
    omega
  · rw [if_neg (by simpa using heq)] at h2
    omega

theorem nonceOf_transfer (hfit : l.nonceOf t.fromAccount + 1 < 2 ^ 64) (a : AccountId) :
    (l.transfer t).nonceOf a = l.nonceOf a + if t.fromAccount = a then 1 else 0 := by
  have hwrap : u64Add (l.nonceOf t.fromAccount) 1 = l.nonceOf t.fromAccount + 1 :=
    Nat.mod_eq_of_lt hfit
  simp only [nonceOf, transfer] at hwrap ⊢
  rw [Std.ExtTreeMap.getD_insert]
  split_ifs with h1 h2 h2
  · rw [hwrap, h2]
  · exact absurd (by simpa using h1) h2
  · exact absurd (by simpa using h2) h1
  · rfl

/-- Below a supply of `2 ^ 64` the credit of a transfer that mints nothing cannot overflow. -/
theorem balance_fits (hle : t.amount ≤ l.balanceOf t.fromAccount) (hsupply : l.supply < 2 ^ 64)
    (hself : t.fromAccount = t.toAccount → t.amount = 0) :
    l.balanceOf t.toAccount + t.amount < 2 ^ 64 := by
  by_cases heq : t.fromAccount = t.toAccount
  · have := l.balanceOf_le_supply t.toAccount
    rw [hself heq]
    omega
  · have : l.balanceOf t.fromAccount + l.balanceOf t.toAccount ≤ l.supply :=
      l.snapshot.balances.getD_add_getD_le_total heq
    omega

end Transfer

/-! ## The account of a stretch of transactions -/

/-- What applying `txs` to `l` with result `l'` does, where `fits` says that no addition
overflows on the way. -/
structure Accounting (l l' : LedgerState) (txs : List SignedTransaction) (fits : Prop) : Prop where
  supply_eq : fits → l'.supply = l.supply + minted txs
  nonce_eq : fits → ∀ a, l'.nonceOf a = l.nonceOf a + sentBy a txs
  nonce_lt : fits → ∀ a, l.nonceOf a < 2 ^ 64 → l.nonceOf a + sentBy a txs < 2 ^ 64
  fits_of : l.supply < 2 ^ 64 → minted txs = 0 →
    (∀ a, l.nonceOf a + sentBy a txs < 2 ^ 64) → fits

namespace Accounting

variable {l l' l'' : LedgerState} {txs txs' : List SignedTransaction} {fits fits' : Prop}

theorem nil (l : LedgerState) : Accounting l l [] True := by
  constructor <;> simp [minted, sentBy]

theorem single {tx : SignedTransaction}
    (hle : tx.transaction.amount ≤ l.balanceOf tx.transaction.fromAccount) :
    Accounting l (l.transfer tx.transaction) [tx] (l.AdditionsFit tx.transaction) where
  supply_eq h := by simpa [minted] using supply_transfer hle h.1
  nonce_eq h a := by
    rw [nonceOf_transfer h.2 a]
    simp [sentBy, List.countP_cons]
  nonce_lt h a ha := by
    by_cases heq : tx.transaction.fromAccount = a
    · subst heq
      simpa [sentBy] using h.2
    · simpa [sentBy, heq] using ha
  fits_of hsupply hmint hnonce := by
    refine ⟨balance_fits hle hsupply (minted_eq_zero_iff.1 hmint tx (by simp)), ?_⟩
    simpa [sentBy] using hnonce tx.transaction.fromAccount

theorem append (h : Accounting l l' txs fits) (h' : Accounting l' l'' txs' fits') :
    Accounting l l'' (txs ++ txs') (fits ∧ fits') where
  supply_eq hf := by
    rw [h'.supply_eq hf.2, h.supply_eq hf.1, minted_append]
    omega
  nonce_eq hf a := by
    rw [h'.nonce_eq hf.2, h.nonce_eq hf.1, sentBy_append]
    omega
  nonce_lt hf a ha := by
    have h1 := h.nonce_lt hf.1 a ha
    have h2 := h'.nonce_lt hf.2 a
    rw [h.nonce_eq hf.1] at h2
    rw [sentBy_append]
    omega
  fits_of hsupply hmint hnonce := by
    rw [minted_append] at hmint
    simp only [sentBy_append] at hnonce
    have hf : fits := h.fits_of hsupply (by omega) fun a => by
      have := hnonce a
      omega
    refine ⟨hf, h'.fits_of ?_ (by omega) fun a => ?_⟩
    · rw [h.supply_eq hf]
      omega
    · rw [h.nonce_eq hf]
      have := hnonce a
      omega

/-- Only the balances and nonces of the result matter. -/
theorem congr_right (h : Accounting l l' txs fits)
    (hb : l''.snapshot.balances = l'.snapshot.balances)
    (hn : l''.snapshot.nonces = l'.snapshot.nonces) : Accounting l l'' txs fits where
  supply_eq hf := by simpa [supply, hb] using h.supply_eq hf
  nonce_eq hf := by simpa [nonceOf, hn] using h.nonce_eq hf
  nonce_lt := h.nonce_lt
  fits_of := h.fits_of

end Accounting

/-! ## Transactions, blocks and replays -/

section Replay

variable {H : Hashing} {crypto : CryptoBackend} {l l' : LedgerState}

theorem accounting_applyTransactions {txs : List SignedTransaction}
    (h : l.applyTransactions H crypto txs = .ok l') :
    Accounting l l' txs (l.TransactionsFit txs) := by
  induction txs generalizing l with
  | nil =>
    cases h
    exact .nil _
  | cons tx txs ih =>
    simp only [applyTransactions, bind, Except.bind] at h
    split at h
    · cases h
    · next l₁ h₁ =>
      obtain ⟨hle, rfl⟩ := validateAndApply_ok h₁
      exact (Accounting.single hle).append (ih h)

theorem accounting_applyBlock {block : Block} (h : l.applyBlock H crypto block = .ok l') :
    Accounting l l' block.transactions (l.TransactionsFit block.transactions) := by
  obtain ⟨l₁, h₁, -, rfl⟩ := applyBlock_ok h
  exact (accounting_applyTransactions h₁).congr_right rfl rfl

theorem accounting_applyBlocks {blocks : List Block}
    (h : l.applyBlocks H crypto blocks = .ok l') :
    Accounting l l' (blocks.flatMap (·.transactions)) (l.BlocksFit H crypto blocks) := by
  induction blocks generalizing l with
  | nil =>
    cases h
    exact .nil _
  | cons block blocks ih =>
    simp only [applyBlocks, bind, Except.bind] at h
    split at h
    · cases h
    · next l₁ h₁ =>
      simpa [BlocksFit, h₁] using (accounting_applyBlock h₁).append (ih h)

/-- **A replay conserves the supply without overflow exactly when no self-transfer in it moves an
amount and every account sends fewer than `2 ^ 64` transactions.** -/
theorem replay_supply_conserved_iff (genesis : GenesisConfig) (blocks : List Block)
    (hsum : genesis.initialBalances.total < 2 ^ 64)
    (hok : replayBlocks H crypto genesis blocks = .ok l) :
    (l.snapshot.balances.total = genesis.initialBalances.total ∧
        (fromGenesis genesis).BlocksFit H crypto blocks) ↔
      (∀ block ∈ blocks, ∀ tx ∈ block.transactions,
        tx.transaction.fromAccount = tx.transaction.toAccount → tx.transaction.amount = 0) ∧
      ∀ account, (blocks.flatMap (·.transactions)).countP
        (·.transaction.fromAccount = account) < 2 ^ 64 := by
  have acc := accounting_applyBlocks hok
  have hzero : ∀ a, (fromGenesis genesis).nonceOf a = 0 := fun a => by
    simp [nonceOf, fromGenesis]
  have hself : minted (blocks.flatMap (·.transactions)) = 0 ↔ ∀ block ∈ blocks,
      ∀ tx ∈ block.transactions,
        tx.transaction.fromAccount = tx.transaction.toAccount → tx.transaction.amount = 0 := by
    simp only [minted_eq_zero_iff, List.mem_flatMap]
    exact ⟨fun h b hb tx htx => h tx ⟨b, hb, htx⟩, fun h tx ⟨b, hb, htx⟩ => h b hb tx htx⟩
  rw [← hself]
  constructor
  · rintro ⟨heq, hfits⟩
    refine ⟨?_, fun a => ?_⟩
    · have : l.snapshot.balances.total = genesis.initialBalances.total + _ := acc.supply_eq hfits
      omega
    · simpa [hzero, sentBy] using acc.nonce_lt hfits a (by simp [hzero])
  · rintro ⟨hmint, hsent⟩
    have hfits := acc.fits_of hsum hmint fun a => by simpa [hzero, sentBy] using hsent a
    refine ⟨?_, hfits⟩
    have : l.snapshot.balances.total = genesis.initialBalances.total + _ := acc.supply_eq hfits
    omega

end Replay

/-! ## Nonces of a replay -/

section Nonces

variable {H : Hashing} {crypto : CryptoBackend} {l l' : LedgerState} {a : AccountId}

theorem nonceOf_transfer_of_ne {t : Transaction} (hne : t.fromAccount ≠ a) :
    (l.transfer t).nonceOf a = l.nonceOf a := by
  simp only [nonceOf, transfer]
  rw [Std.ExtTreeMap.getD_insert, if_neg (by simpa using hne)]

/-- Below `2 ^ 64` a transfer raises the nonces by the number of transactions it is. -/
theorem nonceOf_transfer_add {tx : SignedTransaction} (hfit : l.nonceOf a + sentBy a [tx] < 2 ^ 64) :
    (l.transfer tx.transaction).nonceOf a = l.nonceOf a + sentBy a [tx] := by
  by_cases ha : tx.transaction.fromAccount = a
  · subst ha
    rw [show sentBy tx.transaction.fromAccount [tx] = 1 by simp [sentBy]] at hfit ⊢
    rw [nonceOf_transfer hfit, if_pos rfl]
  · rw [nonceOf_transfer_of_ne ha]
    simp [sentBy, ha]

theorem validateTx_nonce {tx : SignedTransaction} (h : l.validateTx H crypto tx = .ok ()) :
    l.nonceOf tx.transaction.fromAccount = tx.transaction.nonce := by
  obtain ⟨_, -, h⟩ := except_bind_ok.1 h
  obtain ⟨_, -, h⟩ := except_bind_ok.1 h
  obtain ⟨_, -, h⟩ := except_bind_ok.1 h
  obtain ⟨_, -, h⟩ := except_bind_ok.1 h
  obtain ⟨_, -, h⟩ := except_bind_ok.1 h
  simpa [rejectIf_ok] using h

/-- The nonce of an account counts what it sent, and every transaction it sent has a lower one. -/
structure NoncesCount (l l' : LedgerState) (a : AccountId) (txs : List SignedTransaction) : Prop where
  count : l'.nonceOf a = l.nonceOf a + sentBy a txs
  below : ∀ tx ∈ txs, tx.transaction.fromAccount = a → tx.transaction.nonce < l'.nonceOf a

theorem NoncesCount.append {l'' : LedgerState} {txs txs' : List SignedTransaction}
    (h : NoncesCount l l' a txs) (h' : NoncesCount l' l'' a txs') :
    NoncesCount l l'' a (txs ++ txs') where
  count := by
    rw [h'.count, h.count, sentBy_append]
    omega
  below tx htx ha := by
    have hcount := h'.count
    rcases List.mem_append.1 htx with htx | htx
    · have := h.below tx htx ha
      omega
    · exact h'.below tx htx ha

theorem noncesCount_applyTransactions {txs : List SignedTransaction}
    (h : l.applyTransactions H crypto txs = .ok l') (hfit : l.nonceOf a + sentBy a txs < 2 ^ 64) :
    NoncesCount l l' a txs := by
  induction txs generalizing l with
  | nil =>
    cases h
    exact ⟨rfl, by simp⟩
  | cons tx txs ih =>
    obtain ⟨l₁, h₁, h⟩ := except_bind_ok.1 h
    obtain ⟨_, hvalid, -⟩ := except_bind_ok.1 h₁
    obtain ⟨-, rfl⟩ := validateAndApply_ok h₁
    have hsplit := sentBy_append a [tx] txs
    rw [List.singleton_append] at hsplit
    have hcount : (l.transfer tx.transaction).nonceOf a = l.nonceOf a + sentBy a [tx] :=
      nonceOf_transfer_add (by omega)
    have hhead : NoncesCount l (l.transfer tx.transaction) a [tx] := by
      refine ⟨hcount, fun t ht ha => ?_⟩
      obtain rfl := List.mem_singleton.1 ht
      have hnonce := validateTx_nonce hvalid
      rw [ha] at hnonce
      rw [hcount, hnonce]
      simp [sentBy, ha]
    exact hhead.append (ih h (by omega))

theorem noncesCount_applyBlocks {blocks : List Block} (h : l.applyBlocks H crypto blocks = .ok l')
    (hfit : l.nonceOf a + sentBy a (blocks.flatMap (·.transactions)) < 2 ^ 64) :
    NoncesCount l l' a (blocks.flatMap (·.transactions)) := by
  induction blocks generalizing l with
  | nil =>
    cases h
    exact ⟨rfl, by simp⟩
  | cons block blocks ih =>
    obtain ⟨l₂, h₂, h⟩ := except_bind_ok.1 h
    obtain ⟨l₁, h₁, -, hl₂⟩ := applyBlock_ok h₂
    rw [List.flatMap_cons, sentBy_append] at hfit
    have htxs := noncesCount_applyTransactions h₁ (a := a) (by omega)
    have hnonce : l₂.nonceOf a = l₁.nonceOf a := by
      rw [hl₂]
      rfl
    have hhead : NoncesCount l l₂ a block.transactions :=
      ⟨hnonce.trans htxs.count, fun tx htx ha => hnonce.symm ▸ htxs.below tx htx ha⟩
    have hcount := hhead.count
    exact hhead.append (ih h (by omega))

/-- A replayed transaction has a lower nonce than its sender has now. -/
theorem replayBlocks_nonce {genesis : GenesisConfig} {blocks : List Block} {tx : SignedTransaction}
    (h : replayBlocks H crypto genesis blocks = .ok l)
    (hfit : (blocks.flatMap (·.transactions)).length < 2 ^ 64)
    (htx : tx ∈ blocks.flatMap (·.transactions)) :
    tx.transaction.nonce < l.nonceOf tx.transaction.fromAccount ∧
      l.nonceOf tx.transaction.fromAccount ≤ (blocks.flatMap (·.transactions)).length := by
  have hzero : (fromGenesis genesis).nonceOf tx.transaction.fromAccount = 0 := by
    simp [nonceOf, fromGenesis]
  have hsent : sentBy tx.transaction.fromAccount (blocks.flatMap (·.transactions)) ≤
      (blocks.flatMap (·.transactions)).length := List.countP_le_length
  have hcount := noncesCount_applyBlocks h (a := tx.transaction.fromAccount) (by omega)
  refine ⟨hcount.below tx htx rfl, ?_⟩
  rw [hcount.count]
  omega

end Nonces

/-! ## The sample network -/

/-- The sample chain of one block whose only transaction moves 10 out of `validator-1`. -/
def transferChain (toAccount : AccountId) : List Block :=
  let tx := signedTransfer 1 toAccount 10 0
  [signedBlock 1 empty_hash 1 0 1 [tx] ((fromGenesis sampleGenesis).transfer tx.transaction)]

theorem replay_transferChain : ∃ l,
    replayBlocks rollingHashing sampleCrypto sampleGenesis (transferChain "validator-2") = .ok l := by
  have h : (replayBlocks rollingHashing sampleCrypto sampleGenesis
      (transferChain "validator-2")).toOption.isSome := by
    decide +kernel
  obtain ⟨l, hl⟩ := Option.isSome_iff_exists.1 h
  rw [toOption_eq_some] at hl
  exact ⟨l, hl⟩

/-- A transfer to another account conserves the supply. -/
theorem transfer_chain_conserves_supply :
    ∃ l, replayBlocks rollingHashing sampleCrypto sampleGenesis (transferChain "validator-2") =
        .ok l ∧
      l.snapshot.balances.total = sampleGenesis.initialBalances.total ∧
      (fromGenesis sampleGenesis).BlocksFit rollingHashing sampleCrypto
        (transferChain "validator-2") := by
  obtain ⟨l, hl⟩ := replay_transferChain
  refine ⟨l, hl, (replay_supply_conserved_iff _ _ (by decide +kernel) hl).2 ⟨?_, fun account => ?_⟩⟩
  · decide +kernel
  · exact lt_of_le_of_lt List.countP_le_length (by decide +kernel)

/-- A transfer of 10 to oneself raises the supply from 4000 to 4010. -/
theorem self_transfer_mints :
    sampleGenesis.initialBalances.total = 4000 ∧
      ∃ l, replayBlocks rollingHashing sampleCrypto sampleGenesis (transferChain "validator-1") =
          .ok l ∧ l.snapshot.balances.total = 4010 := by
  refine ⟨by decide +kernel, ?_⟩
  have h : (replayBlocks rollingHashing sampleCrypto sampleGenesis
      (transferChain "validator-1")).toOption.map (·.snapshot.balances.total) = some 4010 := by
    decide +kernel
  obtain ⟨l, hl, htotal⟩ := Option.map_eq_some_iff.1 h
  exact ⟨l, toOption_eq_some.1 hl, htotal⟩

end LedgerState

end Entangrid
