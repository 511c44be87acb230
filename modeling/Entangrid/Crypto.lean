import Entangrid.Types.Container

/-!
# The signing backends (`entangrid-crypto`)

`DeterministicCryptoBackend` signs with a hash of the validator's development secret and the
message. It is the backend of the local simulations, and the one the model is run with here;
`rollingHashing` stands in for `blake3` there, so that runs evaluate. `ConfiguredCryptoBackend` signs
and verifies by the identities of the genesis; ML-DSA itself is a parameter of it.

Messages are byte strings. The ledger and the node only sign hashes, the handshake signs encodings, so
the backends are stated for any type of messages.
-/

namespace Entangrid

/-- The bytes of a hash, `hash.to_vec()`. -/
def HashBytes.toVec (h : HashBytes) : List UInt8 :=
  (List.range 32).map fun i => UInt8.ofNat (HashBytes.byte h i)

structure DeterministicCryptoBackend (M : Type := HashBytes) where
  /-- `hash_many` of a secret and a message. -/
  hashSecret : String → M → HashBytes
  secrets : BTreeMap ValidatorId String

namespace DeterministicCryptoBackend

/-- The secrets of the validators of a genesis. -/
def secretMap (genesis : GenesisConfig) : BTreeMap ValidatorId String :=
  genesis.validators.foldl (fun m v => m.insert v.validatorId v.devSecret) ∅

def fromGenesis (hashing : Hashing) (genesis : GenesisConfig) : DeterministicCryptoBackend :=
  { hashSecret := hashing.hashSecret, secrets := secretMap genesis }

section
variable {M : Type} (D : DeterministicCryptoBackend M)

def secret (validatorId : ValidatorId) : Except String String :=
  match D.secrets[validatorId]? with
  | some secret => .ok secret
  | none => .error ("unknown validator id " ++ toString validatorId)

def sign (validatorId : ValidatorId) (message : M) : Except String TypedSignature := do
  let secret ← D.secret validatorId
  .ok { scheme := .devDeterministic, bytes := HashBytes.toVec (D.hashSecret secret message) }

def verify (validatorId : ValidatorId) (message : M) (signature : TypedSignature) :
    Except String Bool :=
  if signature.scheme ≠ .devDeterministic then .ok false
  else do
    let expected ← D.sign validatorId message
    .ok (decide (expected = signature))

end

def backend (D : DeterministicCryptoBackend) : CryptoBackend := { sign := D.sign, verify := D.verify }

end DeterministicCryptoBackend

/-! ## The configured backend -/

/-- The ML-DSA keys a node has: its own for signing, and the verifying keys of the genesis. -/
structure MlDsaKeys (M : Type := HashBytes) where
  sign : M → List UInt8
  verify : ValidatorId → Option (M → List UInt8 → Bool)

inductive LocalSigningBackend where
  | deterministic | mlDsa65 | hybridDeterministicMlDsa65
deriving DecidableEq

structure MlKemSessionKeyFile where
  decapsulationKey : List UInt8
  encapsulationKey : List UInt8

structure LoadedMlKemSessionMaterial where
  keyFile : MlKemSessionKeyFile
  sessionPublicIdentity : SessionPublicIdentity

inductive LocalSessionBackend where
  | deterministic
  | hybridDeterministicMlKem768 (material : LoadedMlKemSessionMaterial)

structure ConfiguredCryptoBackend (M : Type := HashBytes) where
  localValidatorId : ValidatorId
  localSigningBackend : LocalSigningBackend
  localSessionBackend : LocalSessionBackend := .deterministic
  deterministic : DeterministicCryptoBackend M
  identities : BTreeMap ValidatorId PublicIdentity
  sessionIdentities : BTreeMap ValidatorId (Option SessionPublicIdentity) := ∅
  mlDsa : MlDsaKeys M

namespace ConfiguredCryptoBackend

/-- `build_identity_map`. -/
def identityMap (genesis : GenesisConfig) : BTreeMap ValidatorId PublicIdentity :=
  genesis.validators.foldl (fun m v => m.insert v.validatorId v.publicIdentity) ∅

section
variable {M : Type} (C : ConfiguredCryptoBackend M)

def sign (validatorId : ValidatorId) (message : M) : Except String TypedSignature :=
  match C.localSigningBackend with
  | .deterministic => C.deterministic.sign validatorId message
  | .mlDsa65 =>
    if validatorId ≠ C.localValidatorId then
      .error ("ML-DSA signing material is only available for validator " ++
        toString C.localValidatorId)
    else .ok (.single .mlDsa (C.mlDsa.sign message))
  | .hybridDeterministicMlDsa65 =>
    if validatorId ≠ C.localValidatorId then
      .error ("hybrid signing material is only available for validator " ++
        toString C.localValidatorId)
    else do
      let deterministic ← C.deterministic.sign validatorId message
      match deterministic.asSingleBytes with
      | none => .error "deterministic signature unexpectedly missing bytes"
      | some bytes =>
        .ok { scheme := .hybrid
              components :=
                [{ scheme := .devDeterministic, bytes },
                  { scheme := .mlDsa, bytes := C.mlDsa.sign message }] }

def verifySingleSignatureComponent (validatorId : ValidatorId) (message : M)
    (scheme : SignatureScheme) (bytes : List UInt8) : Except String Bool :=
  match scheme with
  | .devDeterministic =>
    C.deterministic.verify validatorId message (.single .devDeterministic bytes)
  | .mlDsa =>
    match C.mlDsa.verify validatorId with
    | none => .error ("missing ML-DSA verifying key for validator " ++ toString validatorId)
    | some verify => .ok (verify message bytes)
  | _ => .ok false

/-- The loop over the components of a hybrid identity. -/
def verifyComponents (validatorId : ValidatorId) (message : M) (signature : TypedSignature) :
    List PublicIdentityComponent → Except String Bool
  | [] => .ok true
  | component :: rest =>
    let scheme? : Option SignatureScheme :=
      match component.scheme with
      | .devDeterministic => some .devDeterministic
      | .mlDsa => some .mlDsa
      | _ => none
    match scheme? with
    | none => .ok false
    | some scheme =>
      match signature.componentBytes scheme with
      | none => .ok false
      | some bytes => do
        if ← C.verifySingleSignatureComponent validatorId message scheme bytes then
          verifyComponents validatorId message signature rest
        else .ok false

/-- A signature of one scheme against an identity of that scheme alone. -/
def verifySingle (validatorId : ValidatorId) (message : M) (signature : TypedSignature)
    (scheme : SignatureScheme) : Except String Bool :=
  if signature.scheme ≠ scheme then .ok false
  else
    match signature.asSingleBytes with
    | none => .ok false
    | some bytes => C.verifySingleSignatureComponent validatorId message scheme bytes

/-- A hybrid identity also accepts a signature of one of its components alone. -/
def verifySignatureAgainstIdentity (validatorId : ValidatorId) (identity : PublicIdentity)
    (message : M) (signature : TypedSignature) : Except String Bool :=
  match identity.scheme with
  | .devDeterministic => C.verifySingle validatorId message signature .devDeterministic
  | .mlDsa => C.verifySingle validatorId message signature .mlDsa
  | .hybrid =>
    if signature.scheme = .hybrid then
      if signature.components.length ≠ identity.components.length then .ok false
      else C.verifyComponents validatorId message signature identity.components
    else
      let publicKeyScheme? : Option PublicKeyScheme :=
        match signature.scheme with
        | .devDeterministic => some .devDeterministic
        | .mlDsa => some .mlDsa
        | _ => none
      match publicKeyScheme? with
      | none => .ok false
      | some publicKeyScheme =>
        if (identity.componentBytes publicKeyScheme).isNone then .ok false
        else C.verifySingle validatorId message signature signature.scheme
  | _ => .ok false

def verify (validatorId : ValidatorId) (message : M) (signature : TypedSignature) :
    Except String Bool :=
  match C.identities[validatorId]? with
  | none => .error ("unknown validator id " ++ toString validatorId)
  | some identity => C.verifySignatureAgainstIdentity validatorId identity message signature

end

def backend (C : ConfiguredCryptoBackend) : CryptoBackend := { sign := C.sign, verify := C.verify }

end ConfiguredCryptoBackend

/-! ## A hash that evaluates

A rolling hash modulo `2 ^ 256` over a length-prefixed encoding. Not collision-free; it only gives
the values a concrete run needs, and never the empty hash on them. -/

def rollingFactor : Nat := 0x9E3779B97F4A7C15F39CC0605CEDC8341082276BF3A27251F86C6A11D0C18E95

def rollingHash (xs : List Nat) : HashBytes :=
  let h := xs.foldl (fun h x => (h * rollingFactor + x + 1) % 2 ^ 256) 7
  ⟨h * rollingFactor % 2 ^ 256, Nat.mod_lt _ (by decide)⟩

namespace Encode

def list {α : Type} (f : α → List Nat) (xs : List α) : List Nat := xs.length :: xs.flatMap f

def string (s : String) : List Nat := list (fun c => [c.toNat]) s.toList

def bytes (bs : List UInt8) : List Nat := list (fun b => [b.toNat]) bs

def scheme : SignatureScheme → Nat
  | .devDeterministic => 0 | .ed25519 => 1 | .mlDsa => 2 | .hybrid => 3

def signature (s : TypedSignature) : List Nat :=
  scheme s.scheme :: bytes s.bytes ++ list (fun c => scheme c.scheme :: bytes c.bytes) s.components

def messageClass : MessageClass → Nat
  | .heartbeat => 0 | .transaction => 1 | .block => 2

def transaction (t : Transaction) : List Nat :=
  string t.fromAccount ++ string t.toAccount ++ [t.amount, t.nonce] ++
    list string t.memo.toList

def signedTransaction (t : SignedTransaction) : List Nat :=
  transaction t.transaction ++ t.signerId :: signature t.signature ++
    [t.txHash.val, t.submittedAtUnixMillis]

def receiptEvent (r : RelayReceipt) : List Nat :=
  [r.epoch, r.slot, r.sourceValidatorId, r.destinationValidatorId, r.witnessValidatorId,
    messageClass r.messageClass, r.sequenceNumber]

def receipt (r : RelayReceipt) : List Nat :=
  receiptEvent r ++ [r.transcriptDigest.val, r.latencyBucketMs, r.byteCountBucket] ++
    signature r.signature

def commitment (c : TopologyCommitment) : List Nat :=
  [c.epoch, c.validatorId, c.receiptRoot.val, c.receiptCount, c.summary.distinctPeers,
    c.summary.relayScore.bits] ++
    [MessageClass.heartbeat, .transaction, .block].flatMap fun m =>
      list (fun n => [n]) (c.summary.byMessageClass m).toList

def header (h : BlockHeader) : List Nat :=
  [h.blockNumber, h.parentHash.val, h.slot, h.epoch, h.proposerId, h.timestampUnixMillis,
    h.stateRoot.val, h.transactionsRoot.val, h.topologyRoot.val]

def vote (v : ProposalVote) : List Nat :=
  [v.validatorId, v.blockHash.val, v.blockNumber, v.epoch, v.slot] ++ signature v.signature

def counters (c : ServiceCounters) : List Nat :=
  [c.uptimeWindows, c.totalWindows, c.timelyDeliveries, c.expectedDeliveries, c.distinctPeers,
    c.expectedPeers, c.failedSessions, c.invalidReceipts]

def attestation (a : ServiceAttestation) : List Nat :=
  [a.subjectValidatorId, a.committeeMemberId, a.epoch] ++ counters a.counters ++
    signature a.signature

def accounts (m : BTreeMap AccountId Nat) : List Nat :=
  list (fun e => string e.1 ++ [e.2]) m.toList

def hashInput : HashInput → List Nat
  | .transaction t => 0 :: transaction t
  | .transactions ts => 1 :: list signedTransaction ts
  | .block h ts c => 2 :: header h ++ list signedTransaction ts ++ list commitment c.toList
  | .header h => 3 :: header h
  | .commitment c => 4 :: commitment c
  | .accounts b n => 5 :: accounts b ++ accounts n
  | .receipt r => 6 :: receipt r
  | .receiptEvent e s a b w m n => [7, e, s, a, b, w, messageClass m, n]
  | .hashes hs => 8 :: list (fun h => [h.val]) hs
  | .pulse p =>
    [9, p.epoch, p.slot, p.sourceValidatorId, p.sequenceNumber, p.emittedAtUnixMillis]
  | .vote v => 10 :: vote v
  | .votes vs => 11 :: list vote vs
  | .attestation a => 12 :: attestation a
  | .attestations as => 13 :: list attestation as
  | .aggregate a =>
    [14, a.subjectValidatorId, a.epoch, a.attestationRoot.val] ++
      list attestation a.attestations ++ counters a.aggregateCounters

end Encode

def rollingHashing : Hashing where
  canonicalHash input := rollingHash (Encode.hashInput input)
  hashMany h n := rollingHash [15, h.val, n]
  hashSecret s h := rollingHash (16 :: Encode.string s ++ [h.val])

end Entangrid
