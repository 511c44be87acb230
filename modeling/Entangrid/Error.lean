import Mathlib.Data.List.Infix
import Entangrid.Types

/-!
# Errors

Every `anyhow!`/`bail!` of the ledger, consensus and node crates that the model reaches, with its
text. `maybe_broadcast_local_proposal_vote` decides by the text (`Error.isVoteConflict`); everyone
else only passes errors on or logs them.
-/

namespace Entangrid

inductive Error where
  /-- An error of the crypto backend, passed on. -/
  | crypto (detail : String)
  -- ledger
  | transactionHashMismatch | sourceAccountMismatch | transactionSignature | insufficientBalance
  | unexpectedNonce | insufficientBalanceDuringApply | stateRootMismatch
  -- consensus
  | receiptEpochMismatch | receiptWitnessNotAssigned | receiptDestinationNotAssigned
  | aggregateMalformed | attestationSignerNotInCommittee | duplicateCommitteeAttestation
  | aggregateBelowThreshold | unexpectedProposer | unexpectedParentHash | serviceGatingRejected
  -- node: blocks, receipts and policies
  | blockHashMismatch | invalidBlockSignature | transactionsRootMismatch | topologyRootMismatch
  | receiptsWithoutCommitment | invalidReceiptSignature | hybridBlock (id : ValidatorId)
  | hybridTransaction (id : ValidatorId) | hybridReceipt (id : ValidatorId)
  | hybridAttestation (id : ValidatorId) | hybridVote (id : ValidatorId)
  | hybridIdentity (id : ValidatorId)
  -- node: votes and certificates
  | votesRequireV2 | certificatesRequireV2 | unknownCertifiedBlock | voteSignerNotValidator
  | invalidVoteSignature | voteMetadata | certificateMetadata | malformedCertificate
  | certificateBelowThreshold | certificateVoteRoot | conflictingProposalVote
  | builtMalformedCertificate
  -- node: sync
  | unknownPeer (id : ValidatorId) | segmentHeightMismatch (locally remote : Nat)
  | segmentMissingBase | segmentTipMismatch | segmentMissingOverlap | segmentDiverged
  | segmentReplayMismatch | snapshotReplayMismatch | snapshotDuplicateReceipt
  | snapshotDuplicateReceiptEvent | snapshotReceiptSignature | snapshotBlockHash
  | snapshotBlockSignature | snapshotBlockNumber | snapshotTransactionsRoot
  | snapshotTopologyRoot | commitmentReceiptSource | commitmentReceiptEpoch
  | commitmentReceiptSignature | commitmentDuplicateReceipt | commitmentDuplicateReceiptEvent
  | receiptRootMismatch | certifiedLengthMismatch | missingSharedQcHeight | certifiedHeaderMismatch
  -- node: service evidence and inbox
  | attestationsRequireV2 | attestationNotInCommittee | invalidAttestationSignature
  | aggregatesRequireV2 | inboxParse (path : String)
deriving DecidableEq

namespace Error

private def hybridText (what : String) (id : ValidatorId) (rest : String) : String :=
  "hybrid enforcement requires " ++ what ++ " " ++ toString id ++ " " ++ rest

def text : Error → String
  | crypto detail => detail
  | transactionHashMismatch => "transaction hash mismatch"
  | sourceAccountMismatch => "transaction source account must match signer"
  | transactionSignature => "transaction signature verification failed"
  | insufficientBalance => "insufficient balance"
  | unexpectedNonce => "unexpected nonce"
  | insufficientBalanceDuringApply => "insufficient balance during apply"
  | stateRootMismatch => "state root mismatch"
  | receiptEpochMismatch => "receipt epoch does not match slot"
  | receiptWitnessNotAssigned => "receipt witness is not assigned for source validator"
  | receiptDestinationNotAssigned => "receipt destination is not an assigned relay target"
  | aggregateMalformed => "aggregate payload is malformed"
  | attestationSignerNotInCommittee => "attestation signer is not in the service committee"
  | duplicateCommitteeAttestation => "duplicate committee attestation"
  | aggregateBelowThreshold => "aggregate does not meet service committee threshold"
  | unexpectedProposer => "unexpected proposer"
  | unexpectedParentHash => "unexpected parent hash"
  | serviceGatingRejected => "service gating rejected proposer"
  | blockHashMismatch => "block hash mismatch"
  | invalidBlockSignature => "invalid block signature"
  | transactionsRootMismatch => "transactions root mismatch"
  | topologyRootMismatch => "topology root mismatch"
  | receiptsWithoutCommitment => "commitment receipts present without commitment"
  | invalidReceiptSignature => "invalid receipt signature"
  | hybridBlock id => hybridText "block proposer" id "to sign with a hybrid signature"
  | hybridTransaction id => hybridText "transaction from validator" id "to use a hybrid signature"
  | hybridReceipt id => hybridText "relay receipt from validator" id "to use a hybrid signature"
  | hybridAttestation id =>
    hybridText "service attestation from committee member" id "to use a hybrid signature"
  | hybridVote id => hybridText "proposal vote from validator" id "to use a hybrid signature"
  | hybridIdentity id => hybridText "validator" id "to advertise a hybrid public identity"
  | votesRequireV2 => "proposal votes require consensus_v2"
  | certificatesRequireV2 => "quorum certificates require consensus_v2"
  | unknownCertifiedBlock => "quorum certificate references unknown block"
  | voteSignerNotValidator => "proposal vote signer is not a validator"
  | invalidVoteSignature => "invalid proposal vote signature"
  | voteMetadata => "proposal vote metadata does not match block"
  | certificateMetadata => "quorum certificate metadata does not match block"
  | malformedCertificate => "malformed quorum certificate"
  | certificateBelowThreshold => "quorum certificate does not meet threshold"
  | certificateVoteRoot => "quorum certificate vote root mismatch"
  | conflictingProposalVote => "conflicting proposal vote"
  | builtMalformedCertificate => "built malformed quorum certificate"
  | unknownPeer id => "unknown peer " ++ toString id
  | segmentHeightMismatch locally remote =>
    "incremental sync height mismatch local " ++ toString locally ++ " remote " ++ toString remote
  | segmentMissingBase => "incremental sync missing local base block"
  | segmentTipMismatch => "incremental sync tip mismatch"
  | segmentMissingOverlap => "incremental sync missing local overlap"
  | segmentDiverged => "incremental sync diverged from local chain"
  | segmentReplayMismatch => "incremental sync replay mismatch"
  | snapshotReplayMismatch => "snapshot replay mismatch"
  | snapshotDuplicateReceipt => "duplicate receipt in snapshot"
  | snapshotDuplicateReceiptEvent => "duplicate receipt event in snapshot"
  | snapshotReceiptSignature => "invalid receipt signature in snapshot"
  | snapshotBlockHash => "block hash mismatch in snapshot"
  | snapshotBlockSignature => "invalid block signature in snapshot"
  | snapshotBlockNumber => "unexpected block number in snapshot"
  | snapshotTransactionsRoot => "transactions root mismatch in snapshot"
  | snapshotTopologyRoot => "topology root mismatch in snapshot"
  | commitmentReceiptSource => "commitment receipt source mismatch"
  | commitmentReceiptEpoch => "commitment receipt epoch mismatch"
  | commitmentReceiptSignature => "invalid commitment receipt signature"
  | commitmentDuplicateReceipt => "duplicate receipt in commitment"
  | commitmentDuplicateReceiptEvent => "duplicate receipt event in commitment"
  | receiptRootMismatch => "receipt root mismatch"
  | certifiedLengthMismatch => "certified sync payload length mismatch"
  | missingSharedQcHeight => "missing local shared QC height"
  | certifiedHeaderMismatch => "certified sync header mismatch"
  | attestationsRequireV2 => "service attestations require consensus_v2"
  | attestationNotInCommittee => "service attestation signer is not in the service committee"
  | invalidAttestationSignature => "invalid service attestation signature"
  | aggregatesRequireV2 => "service aggregates require consensus_v2"
  | inboxParse path => "failed to parse inbox tx " ++ path

/-- `error.to_string().contains("conflicting proposal vote")`. -/
def isVoteConflict (e : Error) : Bool :=
  decide ("conflicting proposal vote".toList <:+: e.text.toList)

end Error

/-- The result of a call to the crypto backend, its error passed on with `?`. -/
def ofCrypto {α : Type} : Except String α → Except Error α
  | .ok a => .ok a
  | .error detail => .error (.crypto detail)

/-- `if c { return Err(e) }`. -/
def rejectIf (c : Bool) (e : Error) : Except Error Unit := if c then .error e else .ok ()

theorem toOption_eq_some {ε α : Type} {x : Except ε α} {a : α} :
    x.toOption = some a ↔ x = .ok a := by
  cases x <;> simp [Except.toOption]

theorem except_ok_bind {ε α β : Type} {a : α} {f : α → Except ε β} :
    (Except.ok a >>= f : Except ε β) = f a := rfl

theorem except_bind_ok {ε α β : Type} {x : Except ε α} {f : α → Except ε β} {b : β} :
    (x >>= f) = .ok b ↔ ∃ a, x = .ok a ∧ f a = .ok b := by
  cases x <;> simp [bind, Except.bind]

theorem error_of_bind_ok {ε α β : Type} {x : Except ε α} {f : α → β} {e : ε}
    (h : (x >>= fun a => .ok (f a)) = .error e) : x = .error e := by
  cases x with
  | error e' =>
    cases h
    rfl
  | ok => cases h

theorem forM_ok {ε α : Type} {xs : List α} {f : α → Except ε Unit} {u : Unit} :
    xs.forM f = .ok u ↔ ∀ x ∈ xs, f x = .ok () := by
  induction xs with
  | nil => simp [List.forM, pure, Except.pure]
  | cons x xs ih =>
    rw [show (x :: xs).forM f = (f x >>= fun _ => xs.forM f) from rfl, except_bind_ok]
    simp only [ih, List.forall_mem_cons]
    exact ⟨fun ⟨_, hx, hxs⟩ => ⟨hx, hxs⟩, fun ⟨hx, hxs⟩ => ⟨(), hx, hxs⟩⟩

theorem rejectIf_ok {c : Bool} {e : Error} {u : Unit} : rejectIf c e = .ok u ↔ c = false := by
  cases c <;> simp [rejectIf]

end Entangrid
