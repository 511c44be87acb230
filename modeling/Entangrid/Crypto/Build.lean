import Entangrid.Crypto

/-!
# Building the crypto backend (`build_crypto_backend`)

The start-up half of `entangrid-crypto`, with the features `pq-ml-dsa` and `pq-ml-kem` on: the checks of a
node's own identities against its key files, and the maps of identities and verifying keys of the genesis.
ML-DSA (`Primitives`) and the reading of key files (`KeyFiles`) are parameters.
-/

namespace Entangrid

/-- `String::into_bytes`. -/
def utf8Bytes (s : String) : List UInt8 := s.toUTF8.data.toList

structure MlDsa65KeyFile where
  signingKey : List UInt8
  verifyingKey : List UInt8

/-- ML-DSA-65: the encodings of keys, signing, and verifying the bytes of a signature. -/
structure MlDsa65 (SigningKey VerifyingKey M : Type) where
  decodeSigningKey : List UInt8 → Option SigningKey
  decodeVerifyingKey : List UInt8 → Option VerifyingKey
  encodeVerifyingKey : VerifyingKey → List UInt8
  sign : SigningKey → M → List UInt8
  verify : VerifyingKey → M → List UInt8 → Bool

structure Primitives (SigningKey VerifyingKey M : Type) where
  /-- `hash_many` of a secret and a message. -/
  hashSecret : String → M → HashBytes
  mlDsa : MlDsa65 SigningKey VerifyingKey M

/-- The key files at each path, or the text of the error in reading or parsing one. -/
structure KeyFiles where
  readMlDsa65 : String → Except String MlDsa65KeyFile
  readMlKemSession : String → Except String MlKemSessionKeyFile

def deterministicPublicIdentity (validatorId : ValidatorId) : PublicIdentity :=
  .single .devDeterministic (utf8Bytes ("validator-" ++ toString validatorId))

/-- The first entry of a validator; the maps of the backend keep its last one. -/
def validatorConfig (genesis : GenesisConfig) (validatorId : ValidatorId) :
    Except String ValidatorConfig :=
  match genesis.validators.find? (·.validatorId == validatorId) with
  | none => .error ("unknown validator id " ++ toString validatorId)
  | some validator => .ok validator

def validateDeterministicIdentity (validator : ValidatorConfig) : Except String Unit :=
  if validator.publicIdentity = {} then .ok ()
  else
    match (deterministicPublicIdentity validator.validatorId).asSingleBytes with
    | none => .error "deterministic identity missing bytes"
    | some expected =>
      match validator.publicIdentity.scheme with
      | .devDeterministic =>
        if validator.publicIdentity.asSingleBytes ≠ some expected then
          .error ("validator " ++ toString validator.validatorId ++
            " public identity does not match deterministic signer")
        else .ok ()
      | .hybrid =>
        if validator.publicIdentity.componentBytes .devDeterministic ≠ some expected then
          .error ("validator " ++ toString validator.validatorId ++
            " hybrid public identity does not include a matching deterministic component")
        else .ok ()
      | _ =>
        .error ("validator " ++ toString validator.validatorId ++
          " public identity does not match deterministic signer")

section
variable {SigningKey VerifyingKey M : Type} (P : Primitives SigningKey VerifyingKey M)
variable (files : KeyFiles)

def decodeMlDsaSigningKey (bytes : List UInt8) : Except String SigningKey :=
  match P.mlDsa.decodeSigningKey bytes with
  | none => .error "invalid ML-DSA signing key encoding"
  | some key => .ok key

def decodeMlDsaVerifyingKey (bytes : List UInt8) : Except String VerifyingKey :=
  match P.mlDsa.decodeVerifyingKey bytes with
  | none => .error "invalid ML-DSA verifying key encoding"
  | some key => .ok key

/-- The file's verifying key is compared with the identity; its signing key is only decoded. -/
def loadMlDsaSigningMaterial (validator : ValidatorConfig) (config : NodeConfig) :
    Except String SigningKey := do
  match config.signingKeyPath with
  | none => .error "ML-DSA backend requires signing_key_path"
  | some keyPath =>
    let keyFile ← files.readMlDsa65 keyPath
    let signingKey ← decodeMlDsaSigningKey P keyFile.signingKey
    let verifyingKey ← decodeMlDsaVerifyingKey P keyFile.verifyingKey
    let encodedVerifyingKey := P.mlDsa.encodeVerifyingKey verifyingKey
    match validator.publicIdentity.scheme with
    | .mlDsa =>
      if validator.publicIdentity.asSingleBytes ≠ some encodedVerifyingKey then
        .error ("validator " ++ toString validator.validatorId ++
          " public identity does not match ML-DSA signing key")
      else .ok signingKey
    | .hybrid =>
      if validator.publicIdentity.componentBytes .mlDsa ≠ some encodedVerifyingKey then
        .error ("validator " ++ toString validator.validatorId ++
          " hybrid public identity does not include a matching ML-DSA component")
      else .ok signingKey
    | _ =>
      .error ("validator " ++ toString validator.validatorId ++
        " public identity does not match ML-DSA signing key")

def buildSessionIdentityMap (genesis : GenesisConfig) :
    BTreeMap ValidatorId (Option SessionPublicIdentity) :=
  genesis.validators.foldl (fun m v => m.insert v.validatorId v.sessionPublicIdentity) ∅

/-- The encoded ML-DSA key of an identity. -/
def PublicIdentity.mlDsaBytes (identity : PublicIdentity) : Option (List UInt8) :=
  match identity.scheme with
  | .mlDsa => identity.asSingleBytes
  | .hybrid => identity.componentBytes .mlDsa
  | _ => none

/-- The loop of `build_ml_dsa_verifying_key_map`. -/
def collectVerifyingKeys (verifyingKeys : BTreeMap ValidatorId VerifyingKey) :
    List ValidatorConfig → Except String (BTreeMap ValidatorId VerifyingKey)
  | [] => .ok verifyingKeys
  | validator :: rest =>
    match validator.publicIdentity.mlDsaBytes with
    | none => collectVerifyingKeys verifyingKeys rest
    | some encodedKey => do
      let key ← decodeMlDsaVerifyingKey P encodedKey
      collectVerifyingKeys (verifyingKeys.insert validator.validatorId key) rest

def buildMlDsaVerifyingKeyMap (genesis : GenesisConfig) :
    Except String (BTreeMap ValidatorId VerifyingKey) :=
  collectVerifyingKeys P ∅ genesis.validators

/-- The ML-KEM key a session identity carries. -/
def expectedMlKem (validatorId : ValidatorId) (identity : SessionPublicIdentity) :
    Except String (List UInt8) :=
  match identity.scheme with
  | .mlKem =>
    match identity.asSingleBytes with
    | none =>
      .error ("validator " ++ toString validatorId ++ " session public identity missing ML-KEM bytes")
    | some bytes => .ok bytes
  | .hybrid =>
    match identity.componentBytes .mlKem with
    | none =>
      .error ("validator " ++ toString validatorId ++
        " session public identity missing ML-KEM component")
    | some bytes => .ok bytes
  | .devDeterministic =>
    .error ("validator " ++ toString validatorId ++
      " session public identity does not carry ML-KEM material")

def loadMlKemSessionMaterial (validator : ValidatorConfig) (config : NodeConfig) :
    Except String LoadedMlKemSessionMaterial := do
  match config.sessionKeyPath with
  | none => .error "hybrid session backend requires session_key_path"
  | some keyPath =>
    match validator.sessionPublicIdentity with
    | none =>
      .error ("validator " ++ toString validator.validatorId ++ " missing session public identity")
    | some sessionIdentity =>
      let keyFile ← files.readMlKemSession keyPath
      if keyFile.decapsulationKey.isEmpty || keyFile.encapsulationKey.isEmpty then
        .error ("ML-KEM session key file at " ++ keyPath ++ " is missing key material")
      else
        let expectedPublicKey ← expectedMlKem validator.validatorId sessionIdentity
        if expectedPublicKey ≠ keyFile.encapsulationKey then
          .error ("validator " ++ toString validator.validatorId ++
            " session public identity does not match configured ML-KEM session key")
        else .ok { keyFile, sessionPublicIdentity := sessionIdentity }

def buildLocalSessionBackend (validator : ValidatorConfig) (config : NodeConfig) :
    Except String LocalSessionBackend :=
  match config.sessionBackend with
  | .devDeterministic => .ok .deterministic
  | .hybridDeterministicMlKemExperimental =>
    (loadMlKemSessionMaterial files validator config).map .hybridDeterministicMlKem768

/-- The keys of a backend; without a signing key of its own, nothing is ever signed with one. -/
def mlDsaKeys (signingKey : Option SigningKey) (verifyingKeys : BTreeMap ValidatorId VerifyingKey) :
    MlDsaKeys M where
  sign message := (signingKey.map (P.mlDsa.sign · message)).getD []
  verify validatorId := verifyingKeys[validatorId]?.map P.mlDsa.verify

/-- The struct literal the branches of `build_crypto_backend` end in. -/
def configuredBackend (genesis : GenesisConfig) (config : NodeConfig)
    (localSessionBackend : LocalSessionBackend) (localSigningBackend : LocalSigningBackend)
    (signingKey : Option SigningKey) : Except String (ConfiguredCryptoBackend M) := do
  let verifyingKeys ← buildMlDsaVerifyingKeyMap P genesis
  .ok
    { localValidatorId := config.validatorId
      localSigningBackend
      localSessionBackend
      deterministic :=
        { hashSecret := P.hashSecret, secrets := DeterministicCryptoBackend.secretMap genesis }
      identities := ConfiguredCryptoBackend.identityMap genesis
      sessionIdentities := buildSessionIdentityMap genesis
      mlDsa := mlDsaKeys P signingKey verifyingKeys }

def buildCryptoBackend (genesis : GenesisConfig) (config : NodeConfig) :
    Except String (ConfiguredCryptoBackend M) := do
  let validator ← validatorConfig genesis config.validatorId
  let localSessionBackend ← buildLocalSessionBackend files validator config
  match config.signingBackend with
  | .devDeterministic => do
    validateDeterministicIdentity validator
    configuredBackend P genesis config localSessionBackend .deterministic none
  | .mlDsa65Experimental => do
    let signingKey ← loadMlDsaSigningMaterial P files validator config
    configuredBackend P genesis config localSessionBackend .mlDsa65 (some signingKey)
  | .hybridDeterministicMlDsaExperimental => do
    validateDeterministicIdentity validator
    let signingKey ← loadMlDsaSigningMaterial P files validator config
    configuredBackend P genesis config localSessionBackend .hybridDeterministicMlDsa65
      (some signingKey)

end

end Entangrid
