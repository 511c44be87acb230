import Entangrid.Crypto.Build

/-!
# The session handshake (`HandshakeProvider`)

`ConfiguredCryptoBackend`'s side of a handshake: the initiator builds a client hello, the responder
answers it with a server hello, and both derive their session from the two. Each hello is signed over
all its fields but the signature; the transcript that the session key comes from takes in the signatures.

Hellos are written by `bincode`, a string or list as its length and elements, a fixed-size array as its
elements. ML-KEM, `blake3` and the randomness of an encapsulation are parameters.
-/

namespace Entangrid

structure SessionClientHello where
  initiatorValidatorId : ValidatorId
  responderValidatorId : ValidatorId
  nonce : HashBytes
  sessionPublicIdentity : SessionPublicIdentity
  kemPublicMaterial : List UInt8
  signature : TypedSignature
deriving DecidableEq

structure SessionServerHello where
  responderValidatorId : ValidatorId
  initiatorValidatorId : ValidatorId
  nonce : HashBytes
  sessionPublicIdentity : SessionPublicIdentity
  kemCiphertext : List UInt8
  signature : TypedSignature
deriving DecidableEq

structure SessionMaterial where
  sessionKey : HashBytes
  transcriptHash : HashBytes
  encryptFrames : Bool
deriving DecidableEq

/-- ML-KEM-768: the encodings of keys and ciphertexts; an encapsulation gives a ciphertext and the
shared key. -/
structure MlKem768 (DecapsulationKey EncapsulationKey Ciphertext Randomness : Type) where
  decodeDecapsulationKey : List UInt8 → Option DecapsulationKey
  decodeEncapsulationKey : List UInt8 → Option EncapsulationKey
  decodeCiphertext : List UInt8 → Option Ciphertext
  encapsulate : EncapsulationKey → Randomness → Option (List UInt8 × List UInt8)
  decapsulate : DecapsulationKey → Ciphertext → Option (List UInt8)

/-- What the handshake takes from outside: `blake3`, how `bincode` writes integers and schemes, and
ML-KEM. -/
structure HandshakePrimitives (DecapsulationKey EncapsulationKey Ciphertext Randomness : Type) where
  blake3 : List UInt8 → HashBytes
  integer : Codec DecodeError Nat
  sessionKeyScheme : Codec DecodeError SessionKeyScheme
  signatureScheme : Codec DecodeError SignatureScheme
  mlKem : MlKem768 DecapsulationKey EncapsulationKey Ciphertext Randomness

/-- `u64::to_le_bytes`. -/
def u64LeBytes (n : Nat) : List UInt8 := (List.range 8).map fun i => UInt8.ofNat (n / 256 ^ i)

def deterministicSessionPublicIdentity (validatorId : ValidatorId) : SessionPublicIdentity :=
  .single .devDeterministic (utf8Bytes ("session-validator-" ++ toString validatorId))

section
variable {DecapsulationKey EncapsulationKey Ciphertext Randomness : Type}
variable (H : HandshakePrimitives DecapsulationKey EncapsulationKey Ciphertext Randomness)

namespace HandshakePrimitives

def hashMany (parts : List (List UInt8)) : HashBytes := H.blake3 parts.flatten

def sessionBincode : Bincode SessionKeyScheme := ⟨H.sessionKeyScheme, H.integer⟩

def signatureBincode : Bincode SignatureScheme := ⟨H.signatureScheme, H.integer⟩

/-- `Vec<u8>`, and the bytes of a `String`. -/
def bytes : Codec DecodeError (List UInt8) := .listOf H.integer Bincode.byte

/-- The fields that both hellos have, in this order, up to the signature. -/
def encodeFields (first second : ValidatorId) (nonce : HashBytes) (identity : SessionPublicIdentity)
    (material : List UInt8) : List UInt8 :=
  H.integer.encode first ++ H.integer.encode second ++ HashBytes.toVec nonce ++
    SessionPublicIdentity.container.serializeBinary H.sessionBincode identity ++
    H.bytes.encode material

def encodeSignature (signature : TypedSignature) : List UInt8 :=
  TypedSignature.container.serializeBinary H.signatureBincode signature

def encodeClientFields (clientHello : SessionClientHello) : List UInt8 :=
  H.encodeFields clientHello.initiatorValidatorId clientHello.responderValidatorId clientHello.nonce
    clientHello.sessionPublicIdentity clientHello.kemPublicMaterial

def encodeServerFields (serverHello : SessionServerHello) : List UInt8 :=
  H.encodeFields serverHello.responderValidatorId serverHello.initiatorValidatorId serverHello.nonce
    serverHello.sessionPublicIdentity serverHello.kemCiphertext

def clientHelloSigningMessage (clientHello : SessionClientHello) : List UInt8 :=
  H.bytes.encode (utf8Bytes "entangrid-session-client-hello") ++ H.encodeClientFields clientHello

def serverHelloSigningMessage (clientHello : SessionClientHello) (serverHello : SessionServerHello) :
    List UInt8 :=
  H.bytes.encode (utf8Bytes "entangrid-session-server-hello") ++
    H.bytes.encode (H.clientHelloSigningMessage clientHello) ++ H.encodeServerFields serverHello

def encodeClientHello (clientHello : SessionClientHello) : List UInt8 :=
  H.encodeClientFields clientHello ++ H.encodeSignature clientHello.signature

def encodeServerHello (serverHello : SessionServerHello) : List UInt8 :=
  H.encodeServerFields serverHello ++ H.encodeSignature serverHello.signature

/-- The bytes that the transcript hash is taken of. -/
def sessionTranscript (clientHello : SessionClientHello) (serverHello : SessionServerHello) :
    List UInt8 :=
  [utf8Bytes "entangrid-session-transcript", H.encodeClientHello clientHello,
    H.encodeServerHello serverHello].flatten

def sessionTranscriptHash (clientHello : SessionClientHello) (serverHello : SessionServerHello) :
    HashBytes :=
  H.blake3 (H.sessionTranscript clientHello serverHello)

def deriveSessionMaterial (deterministicComponent : HashBytes) (kemComponent : List UInt8)
    (clientHello : SessionClientHello) (serverHello : SessionServerHello) (encryptFrames : Bool) :
    SessionMaterial :=
  let transcriptHash := H.sessionTranscriptHash clientHello serverHello
  { sessionKey := H.hashMany [utf8Bytes "entangrid-session-key-v2",
      HashBytes.toVec deterministicComponent, kemComponent, HashBytes.toVec transcriptHash]
    transcriptHash
    encryptFrames }

end HandshakePrimitives

/-- The two validators enter in the order of their ids. -/
def DeterministicCryptoBackend.openSession (D : DeterministicCryptoBackend (List UInt8))
    (localValidatorId peerValidatorId : ValidatorId) (nonce : HashBytes) :
    Except String SessionMaterial := do
  let localSecret ← D.secret localValidatorId
  let peerSecret ← D.secret peerValidatorId
  let (firstId, firstSecret, secondId, secondSecret) :=
    if localValidatorId ≤ peerValidatorId then
      (localValidatorId, localSecret, peerValidatorId, peerSecret)
    else (peerValidatorId, peerSecret, localValidatorId, localSecret)
  let transcriptHash := H.hashMany [utf8Bytes "entangrid-session", u64LeBytes firstId,
    utf8Bytes firstSecret, u64LeBytes secondId, utf8Bytes secondSecret, HashBytes.toVec nonce]
  .ok
    { sessionKey := H.hashMany [utf8Bytes "session-key", HashBytes.toVec transcriptHash]
      transcriptHash
      encryptFrames := false }

namespace ConfiguredCryptoBackend

variable (C : ConfiguredCryptoBackend (List UInt8))

def deterministicSessionComponent (localValidatorId peerValidatorId : ValidatorId)
    (nonce : HashBytes) : Except String HashBytes := do
  let session ← C.deterministic.openSession H localValidatorId peerValidatorId nonce
  .ok session.sessionKey

def encryptFramesForLocalSessionBackend : Bool :=
  match C.localSessionBackend with
  | .deterministic => false
  | .hybridDeterministicMlKem768 _ => true

def localSessionIdentity (validatorId : ValidatorId) : SessionPublicIdentity :=
  match C.localSessionBackend with
  | .deterministic => deterministicSessionPublicIdentity validatorId
  | .hybridDeterministicMlKem768 material => material.sessionPublicIdentity

/-- A validator without a session identity in the genesis may advertise any. -/
def verifyExpectedSessionIdentity (validatorId : ValidatorId) (advertised : SessionPublicIdentity) :
    Except String Unit :=
  match C.sessionIdentities[validatorId]? with
  | none => .error ("unknown validator id " ++ toString validatorId)
  | some none => .ok ()
  | some (some expected) =>
    if expected ≠ advertised then
      .error ("validator " ++ toString validatorId ++
        " advertised a session public identity that does not match genesis")
    else .ok ()

def buildClientHello (localValidatorId peerValidatorId : ValidatorId) (nonce : HashBytes) :
    Except String SessionClientHello := do
  let clientHello : SessionClientHello :=
    { initiatorValidatorId := localValidatorId
      responderValidatorId := peerValidatorId
      nonce
      sessionPublicIdentity := C.localSessionIdentity localValidatorId
      kemPublicMaterial :=
        match C.localSessionBackend with
        | .deterministic => []
        | .hybridDeterministicMlKem768 material => material.keyFile.encapsulationKey
      signature := {} }
  let signature ← C.sign localValidatorId (H.clientHelloSigningMessage clientHello)
  .ok { clientHello with signature }

/-- `if !self.verify(..)? { return Err(..) }`. -/
def requireVerified (validatorId : ValidatorId) (message : List UInt8) (signature : TypedSignature)
    (text : String) : Except String Unit := do
  let verified ← C.verify validatorId message signature
  if !verified then .error text else .ok ()

/-- The session backend's part of accepting a hello: the shared key, and the ciphertext that carries it. -/
def encapsulateFor (randomness : Randomness) (clientHello : SessionClientHello) :
    Except String (List UInt8 × List UInt8) :=
  match C.localSessionBackend with
  | .deterministic =>
    if !clientHello.kemPublicMaterial.isEmpty then
      .error "deterministic session backend does not accept ML-KEM client material"
    else if clientHello.sessionPublicIdentity ≠
        deterministicSessionPublicIdentity clientHello.initiatorValidatorId then
      .error ("validator " ++ toString clientHello.initiatorValidatorId ++
        " advertised an unexpected deterministic session public identity")
    else .ok ([], [])
  | .hybridDeterministicMlKem768 _ => do
    C.verifyExpectedSessionIdentity clientHello.initiatorValidatorId
      clientHello.sessionPublicIdentity
    let expected ← expectedMlKem clientHello.initiatorValidatorId clientHello.sessionPublicIdentity
    if clientHello.kemPublicMaterial ≠ expected then
      .error ("validator " ++ toString clientHello.initiatorValidatorId ++
        " session public identity does not match advertised ML-KEM material")
    else
      match H.mlKem.decodeEncapsulationKey clientHello.kemPublicMaterial with
      | none => .error "invalid ML-KEM encapsulation key encoding"
      | some key =>
        match H.mlKem.encapsulate key randomness with
        | none => .error "failed to encapsulate ML-KEM shared secret"
        | some (ciphertext, sharedKey) => .ok (sharedKey, ciphertext)

def acceptClientHello (randomness : Randomness) (localValidatorId : ValidatorId)
    (clientHello : SessionClientHello) : Except String (SessionServerHello × SessionMaterial) :=
  if clientHello.responderValidatorId ≠ localValidatorId then
    .error ("client hello responder " ++ toString clientHello.responderValidatorId ++
      " does not match local validator " ++ toString localValidatorId)
  else do
    C.requireVerified clientHello.initiatorValidatorId (H.clientHelloSigningMessage clientHello)
      clientHello.signature "client hello signature verification failed"
    let (kemComponent, kemCiphertext) ← C.encapsulateFor H randomness clientHello
    let serverHello : SessionServerHello :=
      { responderValidatorId := localValidatorId
        initiatorValidatorId := clientHello.initiatorValidatorId
        nonce := clientHello.nonce
        sessionPublicIdentity := C.localSessionIdentity localValidatorId
        kemCiphertext
        signature := {} }
    let signature ← C.sign localValidatorId (H.serverHelloSigningMessage clientHello serverHello)
    let serverHello := { serverHello with signature }
    let deterministicComponent ← C.deterministicSessionComponent H localValidatorId
      clientHello.initiatorValidatorId clientHello.nonce
    .ok (serverHello, H.deriveSessionMaterial deterministicComponent kemComponent clientHello
      serverHello C.encryptFramesForLocalSessionBackend)

/-- The session backend's part of finalizing: the shared key. -/
def decapsulateFrom (serverHello : SessionServerHello) : Except String (List UInt8) :=
  match C.localSessionBackend with
  | .deterministic =>
    if !serverHello.kemCiphertext.isEmpty then
      .error "deterministic session backend does not accept ML-KEM server material"
    else if serverHello.sessionPublicIdentity ≠
        deterministicSessionPublicIdentity serverHello.responderValidatorId then
      .error ("validator " ++ toString serverHello.responderValidatorId ++
        " advertised an unexpected deterministic session public identity")
    else .ok []
  | .hybridDeterministicMlKem768 material => do
    C.verifyExpectedSessionIdentity serverHello.responderValidatorId
      serverHello.sessionPublicIdentity
    match H.mlKem.decodeDecapsulationKey material.keyFile.decapsulationKey with
    | none => .error "invalid ML-KEM decapsulation key encoding"
    | some key =>
      match H.mlKem.decodeCiphertext serverHello.kemCiphertext with
      | none => .error "invalid ML-KEM ciphertext encoding"
      | some ciphertext =>
        match H.mlKem.decapsulate key ciphertext with
        | none => .error "failed to decapsulate ML-KEM shared secret"
        | some sharedKey => .ok sharedKey

def finalizeClientSession (localValidatorId : ValidatorId) (clientHello : SessionClientHello)
    (serverHello : SessionServerHello) : Except String SessionMaterial :=
  if clientHello.initiatorValidatorId ≠ localValidatorId then
    .error ("client hello initiator " ++ toString clientHello.initiatorValidatorId ++
      " does not match local validator " ++ toString localValidatorId)
  else if serverHello.initiatorValidatorId ≠ localValidatorId ∨
      serverHello.responderValidatorId ≠ clientHello.responderValidatorId ∨
      serverHello.nonce ≠ clientHello.nonce then
    .error "server hello does not match the client hello transcript"
  else do
    C.requireVerified serverHello.responderValidatorId
      (H.serverHelloSigningMessage clientHello serverHello) serverHello.signature
      "server hello signature verification failed"
    let kemComponent ← C.decapsulateFrom H serverHello
    let deterministicComponent ← C.deterministicSessionComponent H localValidatorId
      serverHello.responderValidatorId clientHello.nonce
    .ok (H.deriveSessionMaterial deterministicComponent kemComponent clientHello serverHello
      C.encryptFramesForLocalSessionBackend)

end ConfiguredCryptoBackend

end

end Entangrid
