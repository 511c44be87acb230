import Entangrid.Node.Proof.Headers
import Entangrid.Node.Proof.Stores
import Entangrid.Node.Start

/-!
# Hybrid enforcement

With `require_hybrid_validator_signatures` on, the handlers of gossip refuse what is not signed with a
hybrid signature. The validators of sync do not know the policy, and neither does the check of a
block's commitment bundle, so what arrives there is stored as it is.

* `HybridSync`: what arrives on those paths and passes their checks has hybrid signatures.
* `hybrid_enforcement`: then everything in the stores of the node has.
-/

namespace Entangrid

variable {E : Env} {A : Source} {n n' : Node}

def TypedSignature.Hybrid (signature : TypedSignature) : Prop := signature.scheme = .hybrid

instance (signature : TypedSignature) : Decidable signature.Hybrid :=
  inferInstanceAs (Decidable (signature.scheme = .hybrid))

/-- The receipts a block brings with its commitment have hybrid signatures. -/
def Block.HybridReceipts (block : Block) : Prop :=
  ∀ receipt ∈ block.commitmentReceipts, receipt.signature.Hybrid

/-- All signatures of a block are hybrid. -/
structure Block.Hybrid (block : Block) : Prop where
  signature : block.signature.Hybrid
  transactions : ∀ tx ∈ block.transactions, tx.signature.Hybrid
  receipts : block.HybridReceipts

/-- The stores of a node that the policy is about. -/
structure HybridStores (n : Node) : Prop where
  blocks : ∀ block ∈ n.knownBlocks, block.Hybrid
  mempool : ∀ (h : HashBytes) (tx : SignedTransaction), n.mempool[h]? = some tx → tx.signature.Hybrid
  receipts : ∀ receipt ∈ n.receipts, receipt.signature.Hybrid
  votes : ∀ vote, n.Holds vote → vote.signature.Hybrid
  attestations : ∀ attestation, n.Attested attestation → attestation.signature.Hybrid

/-- The blocks that may be offered again or built next are hybrid as far as nobody checks them. -/
structure HybridInv (n : Node) : Prop extends HybridStores n where
  taken : ∀ block ∈ n.takenOrphans, block.Hybrid
  built : ∀ block ∈ n.builtBlocks, block.HybridReceipts

/-- What the policy does not look at has hybrid signatures: the receipts in the bundle of a gossiped
block, the blocks of a sync message and the receipts of a snapshot, each if it passes its checks. -/
structure HybridSync (E : Env) (_ : Node) (event : Event) : Prop where
  bundle : ∀ block ∈ event.gossiped, validateReceivedBlock E block = .ok () → block.HybridReceipts
  blocks : ∀ block ∈ event.carried,
    (∃ ledger parent, validateSnapshotBlock E ledger block parent = .ok ()) → block.Hybrid
  receipts : ∀ sender responderId chain, event = .received sender (.syncResponse responderId chain) →
    (∃ ledger, validateChainSnapshot E chain = .ok ledger) →
    ∀ receipt ∈ chain.receipts, receipt.signature.Hybrid

/-- Where such messages come from. -/
def hybridSource (E : Env) : Source where
  blocks := {block | validateReceivedBlock E block = .ok () → block.HybridReceipts}
  carried := {block |
    (∃ ledger parent, validateSnapshotBlock E ledger block parent = .ok ()) → block.Hybrid}
  snapshots _ := {chain | (∃ ledger, validateChainSnapshot E chain = .ok ledger) →
    ∀ receipt ∈ chain.receipts, receipt.signature.Hybrid}

theorem admits_hybrid (event : Event) (h : HybridSync E n event) :
    (hybridSource E).Admits E n event where
  blocks := h.bundle
  carried := h.blocks
  snapshot := h.receipts

/-! ## Steps -/

/-- The bundle of a block the node builds consists of receipts it stored. -/
theorem HybridInv.built_step (h : HybridInv n) (hstep : Step E A n n') {block : Block}
    (hb : block ∈ n'.builtBlocks) : block.HybridReceipts := by
  rcases hstep.effect_new (Node.mem_builtBlocks.1 hb) (by simp) (by simp) with hold | hguard
  · exact h.built block (Node.mem_builtBlocks.2 hold)
  · obtain ⟨slot, epoch, timestamp, hbuild, -⟩ := hguard
    obtain ⟨_, -, hbuild⟩ := except_bind_ok.1 hbuild
    obtain rfl := Except.ok.inj hbuild
    intro receipt hr
    dsimp only at hr
    split_ifs at hr
    · exact h.receipts receipt (List.mem_filter.1 hr).1
    · simp at hr

section
variable (hflag : E.config.featureFlags.requireHybridValidatorSignatures = true)
include hflag

theorem hybrid_of_requireHybrid {signature : TypedSignature} {e : Error} {u : Unit}
    (h : requireHybrid E signature e = .ok u) : signature.Hybrid := by
  simpa [requireHybrid, rejectIf_ok, hflag, TypedSignature.Hybrid] using h

/-- A block that `accept_block` takes is hybrid up to its bundle. -/
theorem hybrid_of_validateReceivedBlock {block : Block}
    (h : validateReceivedBlock E block = .ok ()) (hreceipts : block.HybridReceipts) :
    block.Hybrid := by
  simp only [validateReceivedBlock, except_bind_ok, forM_ok] at h
  obtain ⟨_, -, _, -, _, -, _, -, _, -, _, -, _, htransactions, hsignature⟩ := h
  exact
    { signature := hybrid_of_requireHybrid hflag hsignature
      transactions := fun tx htx => hybrid_of_requireHybrid hflag (htransactions tx htx)
      receipts := hreceipts }

theorem hybrid_of_receiptVerdict {receipt : RelayReceipt} (h : receiptVerdict E receipt = .ok ()) :
    receipt.signature.Hybrid := by
  unfold receiptVerdict at h
  split at h
  · simp at h
  · next hpolicy => exact hybrid_of_requireHybrid hflag hpolicy

/-- A block that was not known is hybrid. -/
theorem HybridInv.new (h : HybridInv n) {block : Block} (hb : (hybridSource E).New E n block) :
    block.Hybrid := by
  rcases hb with ⟨hsource, hvalid⟩ | ⟨hcarried, _, _, _, _, _, -, -, hchain, -, hmem⟩
  · refine hybrid_of_validateReceivedBlock hflag hvalid ?_
    rcases hsource.source with hoffered | hbuilt | htaken
    · exact hoffered hvalid
    · exact h.built block hbuilt
    · exact (h.taken block htaken).receipts
  · exact hcarried.carried block List.mem_cons_self (validateSnapshotBlocks_mem hchain hmem)

theorem HybridInv.step (h : HybridInv n) (hstep : Step E (hybridSource E) n n') : HybridInv n' where
  blocks := hstep.forall_known (fun _ hb => h.new hflag hb) h.blocks
  mempool k tx htx := by
    rcases hstep.mempool htx with hold | ⟨-, hvalid, -⟩
    · exact h.mempool k tx hold
    · obtain ⟨_, hpolicy, -⟩ := except_bind_ok.1 hvalid
      exact hybrid_of_requireHybrid hflag hpolicy
  receipts receipt hr := by
    rcases hstep.receipts hr with hold | hverdict | ⟨block, hblock, hr⟩ | ⟨chain, hoffered, hvalid, hr⟩
    · exact h.receipts receipt hold
    · exact hybrid_of_receiptVerdict hflag hverdict
    · exact (hblock.elim (h.blocks block) (h.new hflag)).receipts receipt hr
    · exact hoffered hvalid receipt hr
  votes vote hv := by
    rcases hstep.holds_checked hv with hold | ⟨-, hpolicy⟩
    · exact h.votes vote hold
    · exact hybrid_of_requireHybrid hflag hpolicy
  attestations attestation ha := by
    rcases hstep.attested ha with hold | hvalid
    · exact h.attestations attestation hold
    · obtain ⟨_, -, hvalid⟩ := except_bind_ok.1 hvalid
      obtain ⟨_, hpolicy, -⟩ := except_bind_ok.1 hvalid
      exact hybrid_of_requireHybrid hflag hpolicy
  taken block hb := by
    rcases hstep.effect_new (Node.mem_takenOrphans.1 hb) (by simp) (by simp) with hold | hguard
    · exact h.taken block (Node.mem_takenOrphans.2 hold)
    · exact h.blocks block (Node.mem_knownBlocks.2 (.inr (.inr hguard)))
  built _ hb := h.built_step hstep hb

end

theorem HybridInv.fresh (slot : Option Slot) : HybridInv (Node.fresh E slot) where
  blocks := by simp [Node.knownBlocks, Node.fresh]
  mempool := by simp [Node.fresh]
  receipts := by simp [Node.fresh]
  votes := by simp [Node.Holds, Node.fresh, VoteMap.lookup]
  attestations := by simp [Node.Attested, Node.fresh]
  taken := by simp [Node.takenOrphans, Node.fresh]
  built := by simp [Node.builtBlocks, Node.fresh]

/-- **Hybrid enforcement**: with the policy on, in every run in which the unchecked paths bring hybrid
signatures, all blocks, transactions, receipts, votes and attestations a node keeps have hybrid
signatures. -/
theorem hybrid_enforcement (E : Env)
    (hflag : E.config.featureFlags.requireHybridValidatorSignatures = true) (n : Node)
    (hn : Reachable E (HybridSync E) n) : HybridStores n :=
  (hn.invariant (fun _ event hP => admits_hybrid event hP) HybridInv.fresh
    fun _ _ _ h hstep => h.step hflag hstep).toHybridStores

/-! ## Runs -/

def hybridIdentity (validatorId : ValidatorId) : PublicIdentity where
  scheme := .hybrid
  components := [{ scheme := .devDeterministic, bytes := [UInt8.ofNat validatorId] },
    { scheme := .mlDsa, bytes := [UInt8.ofNat validatorId] }]

/-- The sample network with hybrid identities. -/
def hybridGenesis : GenesisConfig :=
  { sampleGenesis with
    validators := sampleGenesis.validators.map fun v =>
      { v with publicIdentity := hybridIdentity v.validatorId } }

/-- A stand-in for an ML-DSA signature. -/
def sampleMlDsa (validatorId : ValidatorId) (message : HashBytes) : List UInt8 :=
  HashBytes.toVec (rollingHashing.hashSecret ("ml-dsa-" ++ toString validatorId) message)

def hybridCrypto (validatorId : ValidatorId) : ConfiguredCryptoBackend where
  localValidatorId := validatorId
  localSigningBackend := .hybridDeterministicMlDsa65
  deterministic := .fromGenesis rollingHashing hybridGenesis
  identities := ConfiguredCryptoBackend.identityMap hybridGenesis
  mlDsa :=
    { sign := sampleMlDsa validatorId
      verify := fun v => some fun message bytes => bytes == sampleMlDsa v message }

def hybridEnv (validatorId : ValidatorId) : Env :=
  { sampleEnv validatorId with
    crypto := (hybridCrypto validatorId).backend
    genesis := hybridGenesis
    config :=
      { (sampleEnv validatorId).config with
        featureFlags := { sampleFlags with requireHybridValidatorSignatures := true } } }

/-- The first block under the signature its proposer makes with both keys. -/
def hybridFirstBlock : Block :=
  { firstBlock with
    signature := ((hybridCrypto firstBlock.header.proposerId).sign firstBlock.header.proposerId
      firstBlock.blockHash).toOption.getD {} }

/-- The chain of the first block, signed with the development secret alone. -/
def plainSnapshot : ChainSnapshot where
  snapshot := { (LedgerState.fromGenesis hybridGenesis).snapshot with
    height := 1, tipHash := firstBlock.blockHash, lastSlot := 0 }
  blocks := [firstBlock]
  receipts := []
  proposalVotes := []

def hybridSignature (validatorId : ValidatorId) (message : HashBytes) : TypedSignature :=
  ((hybridCrypto validatorId).sign validatorId message).toOption.getD {}

/-- A transfer and a receipt under hybrid signatures. -/
def hybridTransfer : SignedTransaction :=
  let tx := signedTransfer 1 (validatorAccount 2) 5 0
  { tx with signature := hybridSignature 1 tx.txHash }

def hybridReceipt : RelayReceipt :=
  { heartbeatReceiptOf2 with
    signature := hybridSignature 3 (receiptSigningHash rollingHashing heartbeatReceiptOf2) }

/-- A block with the transfer on top of the first one. -/
def hybridSecondBlock : Block :=
  let C := (hybridEnv 1).consensus
  let block := signedBlock 2 firstBlock.blockHash 1 (C.epochForSlot 1) (C.proposerForSlot 1)
    [hybridTransfer] ((LedgerState.fromGenesis hybridGenesis).transfer hybridTransfer.transaction)
  { block with signature := hybridSignature block.header.proposerId block.blockHash }

/-- The chain of both blocks with the receipt and the votes of two validators. -/
def hybridSnapshot : ChainSnapshot where
  snapshot :=
    { ((LedgerState.fromGenesis hybridGenesis).transfer hybridTransfer.transaction).snapshot with
      height := 2, tipHash := hybridSecondBlock.blockHash, lastSlot := 1 }
  blocks := [hybridFirstBlock, hybridSecondBlock]
  receipts := [hybridReceipt]
  proposalVotes := [signedProposalVote 2 hybridSecondBlock, signedProposalVote 3 hybridSecondBlock]

theorem hybrid_block_of_synced {block : Block} (h : block ∈ hybridSnapshot.blocks) : block.Hybrid := by
  simp only [hybridSnapshot, List.mem_cons, List.not_mem_nil, or_false] at h
  rcases h with rfl | rfl
  · exact ⟨by decide +kernel, fun tx htx => absurd htx List.not_mem_nil,
      fun receipt hr => absurd hr List.not_mem_nil⟩
  · refine ⟨by decide +kernel, fun tx htx => ?_, fun receipt hr => absurd hr List.not_mem_nil⟩
    obtain rfl := List.mem_singleton.1 htx
    decide +kernel

/-- A gossiped block with a hybrid signature becomes the chain, and a sync response makes it longer and
brings a receipt: all that is kept is hybrid. -/
theorem hybrid_chain_is_accepted : ∃ n, Reachable (hybridEnv 1) (HybridSync (hybridEnv 1)) n ∧
    n.blocks.length = 2 ∧ n.receipts.length = 1 ∧ HybridStores n := by
  have harrives : ∀ event ∈ [Event.received 2 (.blockProposal hybridFirstBlock),
      .received 3 (.syncResponse 3 hybridSnapshot)], ∀ n, HybridSync (hybridEnv 1) n event := by
    intro event he n
    simp only [List.mem_cons, List.not_mem_nil, or_false] at he
    rcases he with rfl | rfl
    · refine ⟨fun block hb _ => ?_, by simp [Event.carried], by simp⟩
      obtain rfl := List.mem_singleton.1 hb
      exact fun receipt hr => absurd hr List.not_mem_nil
    · refine ⟨by simp [Event.gossiped], fun block hb _ => hybrid_block_of_synced hb, ?_⟩
      intro sender responderId chain heq _ receipt hr
      cases heq
      obtain rfl := List.mem_singleton.1 hr
      decide +kernel
  obtain ⟨n, hn, hvalues⟩ := Reachable.of_map (E := hybridEnv 1) 8 _ (some 1)
    (fun n => (n.blocks.length, n.receipts.length)) (2, 1) harrives (by decide +kernel)
  simp only [Prod.mk.injEq] at hvalues
  exact ⟨n, hn, hvalues.1, hvalues.2, hybrid_enforcement (hybridEnv 1) rfl n hn⟩

/-- On a hybrid genesis with the policy on, a snapshot brings a block signed with the development
secret alone onto the chain. -/
theorem plain_block_arrives_by_sync : ∃ n, Reachable (hybridEnv 1) AnyEvent n ∧
    (hybridEnv 1).config.featureFlags.requireHybridValidatorSignatures = true ∧
    validateHybridEnforcementGenesis (hybridEnv 1) = .ok () ∧
    ∃ block ∈ n.blocks, ¬block.signature.Hybrid := by
  have hrun : (runEvents (hybridEnv 1) 8 [.received 2 (.syncResponse 2 plainSnapshot)]
      (.fresh (hybridEnv 1) (some 1))).map (·.blocks.map (·.signature.scheme)) =
        some [.devDeterministic] := by
    decide +kernel
  obtain ⟨n, hn, hschemes⟩ := Option.map_eq_some_iff.1 hrun
  obtain ⟨block, rest, hblocks, hscheme, -⟩ := List.map_eq_cons_iff.1 hschemes
  refine ⟨n, Reachable.runEvents (.fresh _) (fun _ _ _ => trivial) hn, rfl, rfl, block,
    hblocks ▸ List.mem_cons_self, ?_⟩
  rw [TypedSignature.Hybrid, hscheme]
  decide

end Entangrid
