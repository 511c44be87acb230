import Entangrid.Error

/-!
# The ledger (`entangrid-ledger`)

`LedgerState` is a `StateSnapshot`; a transaction is validated against the balances and nonces and
then applied to them, a block applies its transactions in order and checks its state root, a chain
is replayed block by block from the genesis balances. Additions wrap at `2 ^ 64`, as `u64`
arithmetic does in a release build.
-/

namespace Entangrid

structure LedgerState where
  snapshot : StateSnapshot
deriving DecidableEq

namespace LedgerState

def fromGenesis (genesis : GenesisConfig) : LedgerState :=
  ⟨{ balances := genesis.initialBalances, nonces := ∅, tipHash := empty_hash, height := 0,
     lastSlot := 0 }⟩

/-- `balances.get(account).copied().unwrap_or_default()`. -/
def balanceOf (l : LedgerState) (account : AccountId) : Nat := l.snapshot.balances.getD account 0

def nonceOf (l : LedgerState) (account : AccountId) : Nat := l.snapshot.nonces.getD account 0

def blockHeight (l : LedgerState) : Nat := l.snapshot.height

section
variable (H : Hashing) (crypto : CryptoBackend)

def validateTx (l : LedgerState) (tx : SignedTransaction) : Except Error Unit := do
  rejectIf (H.canonicalHash (.transaction tx.transaction) != tx.txHash) .transactionHashMismatch
  rejectIf (tx.transaction.fromAccount != validatorAccount tx.signerId) .sourceAccountMismatch
  let verified ← ofCrypto (crypto.verify tx.signerId tx.txHash tx.signature)
  rejectIf (!verified) .transactionSignature
  rejectIf (l.balanceOf tx.transaction.fromAccount < tx.transaction.amount) .insufficientBalance
  rejectIf (l.nonceOf tx.transaction.fromAccount != tx.transaction.nonce) .unexpectedNonce

/-- The balances and nonces after a transfer. Both balances are read before either is written. -/
def transfer (l : LedgerState) (t : Transaction) : LedgerState :=
  let fromBalance := l.balanceOf t.fromAccount
  let toBalance := l.balanceOf t.toAccount
  ⟨{ l.snapshot with
     balances := (l.snapshot.balances.insert t.fromAccount (fromBalance - t.amount)).insert
       t.toAccount (u64Add toBalance t.amount)
     nonces := l.snapshot.nonces.insert t.fromAccount (u64Add (l.nonceOf t.fromAccount) 1) }⟩

def applyTransaction (l : LedgerState) (tx : SignedTransaction) : Except Error LedgerState :=
  if l.balanceOf tx.transaction.fromAccount < tx.transaction.amount then
    .error .insufficientBalanceDuringApply
  else
    .ok (l.transfer tx.transaction)

/-- One round of `apply_block`'s loop. -/
def validateAndApply (l : LedgerState) (tx : SignedTransaction) : Except Error LedgerState := do
  l.validateTx H crypto tx
  l.applyTransaction tx

def stateRoot (l : LedgerState) : HashBytes :=
  H.canonicalHash (.accounts l.snapshot.balances l.snapshot.nonces)

def applyTransactions (l : LedgerState) : List SignedTransaction → Except Error LedgerState
  | [] => .ok l
  | tx :: txs => do
    let l' ← l.validateAndApply H crypto tx
    applyTransactions l' txs

def applyBlock (l : LedgerState) (block : Block) : Except Error LedgerState := do
  let l' ← l.applyTransactions H crypto block.transactions
  rejectIf (l'.stateRoot H != block.header.stateRoot) .stateRootMismatch
  .ok ⟨{ l'.snapshot with
         tipHash := block.blockHash
         height := block.header.blockNumber
         lastSlot := block.header.slot }⟩

/-- The loop of `replay_blocks`, from any ledger. -/
def applyBlocks (l : LedgerState) : List Block → Except Error LedgerState
  | [] => .ok l
  | block :: blocks => do
    let l' ← l.applyBlock H crypto block
    applyBlocks l' blocks

def replayBlocks (genesis : GenesisConfig) (blocks : List Block) : Except Error LedgerState :=
  (fromGenesis genesis).applyBlocks H crypto blocks

end

/-! ## What a successful call did -/

section
variable {H : Hashing} {crypto : CryptoBackend} {l l' : LedgerState}

theorem validateAndApply_ok {tx : SignedTransaction}
    (h : l.validateAndApply H crypto tx = .ok l') :
    tx.transaction.amount ≤ l.balanceOf tx.transaction.fromAccount ∧
      l' = l.transfer tx.transaction := by
  simp only [validateAndApply, applyTransaction, bind, Except.bind] at h
  split at h
  · cases h
  · split_ifs at h with hlt
    exact ⟨by omega, (Except.ok.inj h).symm⟩

theorem applyBlock_ok {block : Block} (h : l.applyBlock H crypto block = .ok l') :
    ∃ l₁, l.applyTransactions H crypto block.transactions = .ok l₁ ∧
      l₁.stateRoot H = block.header.stateRoot ∧
      l' = ⟨{ l₁.snapshot with
              tipHash := block.blockHash
              height := block.header.blockNumber
              lastSlot := block.header.slot }⟩ := by
  simp only [applyBlock, bind, Except.bind] at h
  split at h
  · cases h
  · next l₁ h₁ =>
    refine ⟨l₁, h₁, ?_⟩
    split at h
    · cases h
    · next hroot =>
      rw [rejectIf_ok] at hroot
      exact ⟨by simpa using hroot, (Except.ok.inj h).symm⟩

end

end LedgerState

end Entangrid
