import Entangrid.Crypto.Proof.Verify
import Entangrid.Node.Start
import Entangrid.Sample
import Entangrid.Types.Proof.Container

/-!
# Signing keys at start-up

What a node's start-up promises of the signatures it will see and make. The checks of a start look at the
schemes of all identities, and at the key material of the node's own.

* `verify_never_vacuous_iff`: a signature of a validator verifies only by a primitive check under its own
  key, exactly if its identity is not a hybrid one without components.
* `accepted_configuration_signs_iff`: a node that was accepted makes signatures that verify, exactly if
  the identity the backends keep for it suits its signing backend and holds the public key of its signing
  key.
-/

namespace Entangrid

open ConfiguredCryptoBackend

section
variable {SigningKey VerifyingKey : Type} {M : Type} {P : Primitives SigningKey VerifyingKey M}
variable {files : KeyFiles} {genesis : GenesisConfig} {config : NodeConfig}
variable {C : ConfiguredCryptoBackend M} {v : ValidatorId} {m : M} {s : TypedSignature}

/-! ## Primitive checks -/

/-- A check of a message under a validator's own key: with its secret in the genesis, or with the ML-DSA
key of its identity. -/
def PrimitiveCheck (P : Primitives SigningKey VerifyingKey M) (genesis : GenesisConfig)
    (v : ValidatorId) (m : M) (scheme : SignatureScheme) (bytes : List UInt8) : Prop :=
  match scheme with
  | .devDeterministic =>
    ∃ secret, (DeterministicCryptoBackend.secretMap genesis)[v]? = some secret ∧
      bytes = HashBytes.toVec (P.hashSecret secret m)
  | .mlDsa =>
    ∃ identity encoded key, (identityMap genesis)[v]? = some identity ∧
      identity.mlDsaBytes = some encoded ∧ P.mlDsa.decodeVerifyingKey encoded = some key ∧
        P.mlDsa.verify key m bytes = true
  | _ => False

/-- A signature was checked: some part of it by a primitive check, and of a hybrid one the part for every
component of the identity. -/
structure Checked (P : Primitives SigningKey VerifyingKey M) (genesis : GenesisConfig)
    (v : ValidatorId) (m : M) (s : TypedSignature) : Prop where
  primitive : ∃ scheme bytes, s.componentBytes scheme = some bytes ∧
    PrimitiveCheck P genesis v m scheme bytes
  components : s.scheme = .hybrid → ∀ identity, (identityMap genesis)[v]? = some identity →
    ∀ c ∈ identity.components, ∃ scheme bytes, c.scheme.signatureScheme = some scheme ∧
      s.componentBytes scheme = some bytes ∧ PrimitiveCheck P genesis v m scheme bytes

theorem PublicIdentity.mlDsaBytes_of_hybrid {i : PublicIdentity} (h : i.scheme = .hybrid) :
    i.mlDsaBytes = i.componentBytes .mlDsa := by
  rw [PublicIdentity.mlDsaBytes, h]

theorem PublicIdentity.mlDsaBytes_of_mlDsa {i : PublicIdentity} (h : i.scheme = .mlDsa) :
    i.mlDsaBytes = some i.bytes := by
  simp [PublicIdentity.mlDsaBytes, PublicIdentity.asSingleBytes, h]

/-- The primitive checks are the checks of a component, where an ML-DSA one finds a key to check with. -/
theorem primitiveCheck_of_component (hC : C.BuiltFrom P genesis) {identity : PublicIdentity}
    (hidentity : (identityMap genesis)[v]? = some identity) {scheme : SignatureScheme}
    {bytes : List UInt8} (hkey : scheme = .mlDsa → identity.mlDsaBytes.isSome)
    (hcheck : C.verifySingleSignatureComponent v m scheme bytes = .ok true) :
    PrimitiveCheck P genesis v m scheme bytes := by
  cases scheme with
  | devDeterministic => exact hC.deterministic_ok.1 hcheck
  | mlDsa =>
    obtain ⟨encoded, hencoded⟩ := Option.isSome_iff_exists.1 (hkey rfl)
    obtain ⟨key, hdecode, hverify⟩ := (hC.mlDsa_ok hidentity hencoded).1 hcheck
    exact ⟨identity, encoded, key, hidentity, hencoded, hdecode, hverify⟩
  | ed25519 | hybrid => simp [verifySingleSignatureComponent] at hcheck

theorem PublicKeyScheme.eq_mlDsa_of_signatureScheme {scheme : PublicKeyScheme}
    (h : scheme.signatureScheme = some .mlDsa) : scheme = .mlDsa :=
  signatureScheme_inj h rfl

theorem PublicKeyScheme.signatureScheme_ne_hybrid {scheme : PublicKeyScheme} :
    scheme.signatureScheme ≠ some .hybrid := by
  cases scheme <;> simp [PublicKeyScheme.signatureScheme]

/-- What verifies against an identity was checked, unless the identity is hybrid and asks for nothing. -/
theorem Verifies.checked (hC : C.BuiltFrom P genesis) {identity : PublicIdentity}
    (hidentity : (identityMap genesis)[v]? = some identity)
    (hasks : identity.scheme = .hybrid → identity.components ≠ [])
    (hverifies : C.Verifies v identity m s) : Checked P genesis v m s := by
  unfold Verifies at hverifies
  split_ifs at hverifies with hhybrid hscheme
  · obtain ⟨-, hcomponents⟩ := hverifies
    have hchecks : ∀ c ∈ identity.components, ∃ scheme bytes,
        c.scheme.signatureScheme = some scheme ∧ s.componentBytes scheme = some bytes ∧
          PrimitiveCheck P genesis v m scheme bytes := by
      intro c hc
      obtain ⟨scheme, bytes, hsigns, hbytes, hcheck⟩ := hcomponents c hc
      refine ⟨scheme, bytes, hsigns, hbytes, primitiveCheck_of_component hC hidentity ?_ hcheck⟩
      rintro rfl
      rw [identity.mlDsaBytes_of_hybrid hhybrid, PublicIdentity.componentBytes_of_hybrid hhybrid]
      exact ⟨c, hc, PublicKeyScheme.eq_mlDsa_of_signatureScheme hsigns⟩
    refine ⟨?_, fun _ identity' hidentity' => ?_⟩
    · obtain ⟨c, hc⟩ := List.exists_mem_of_ne_nil _ (hasks hhybrid)
      obtain ⟨scheme, bytes, -, hbytes, hcheck⟩ := hchecks c hc
      exact ⟨scheme, bytes, hbytes, hcheck⟩
    · obtain rfl := Option.some.inj (hidentity.symm.trans hidentity')
      exact hchecks
  · obtain ⟨scheme, hsigns, hsome, hcheck⟩ := hverifies
    refine ⟨⟨s.scheme, s.bytes, s.componentBytes_of_single hscheme,
      primitiveCheck_of_component hC hidentity ?_ hcheck⟩, fun h => absurd h hscheme⟩
    intro hmlDsa
    rw [hmlDsa] at hsigns
    rw [PublicKeyScheme.eq_mlDsa_of_signatureScheme hsigns] at hsome
    rwa [identity.mlDsaBytes_of_hybrid hhybrid]
  · obtain ⟨hsigns, hcheck⟩ := hverifies
    have hscheme : s.scheme ≠ .hybrid := by
      intro h
      rw [h] at hsigns
      exact PublicKeyScheme.signatureScheme_ne_hybrid hsigns
    refine ⟨⟨s.scheme, s.bytes, s.componentBytes_of_single hscheme,
      primitiveCheck_of_component hC hidentity ?_ hcheck⟩, fun h => absurd h hscheme⟩
    intro hmlDsa
    rw [hmlDsa] at hsigns
    have hidentityScheme := PublicKeyScheme.eq_mlDsa_of_signatureScheme hsigns
    rw [identity.mlDsaBytes_of_mlDsa hidentityScheme]
    rfl

/-- A hybrid identity without components takes the hybrid signature without components, of anything. -/
theorem verifies_of_no_components {identity : PublicIdentity} (hhybrid : identity.scheme = .hybrid)
    (hnone : identity.components = []) : C.Verifies v identity m { scheme := .hybrid } := by
  simp [Verifies, hhybrid, hnone]

theorem not_checked_of_no_components : ¬Checked P genesis v m { scheme := .hybrid } := by
  rintro ⟨⟨scheme, bytes, hbytes, -⟩, -⟩
  simp [TypedSignature.componentBytes] at hbytes

end

theorem startCrypto_ok {SigningKey VerifyingKey M : Type}
    {P : Primitives SigningKey VerifyingKey M} {files : KeyFiles} {E : Env}
    {C : ConfiguredCryptoBackend M} (h : startCrypto P files E = .ok C) :
    validateHybridEnforcementGenesis E = .ok () ∧
      buildCryptoBackend P files E.genesis E.config = .ok C := by
  obtain ⟨_, hvalidate, h⟩ := except_bind_ok.1 h
  refine ⟨hvalidate, ?_⟩
  cases hbuild : buildCryptoBackend P files E.genesis E.config with
  | error text => simp [hbuild, ofCrypto] at h
  | ok C' => simpa [hbuild, ofCrypto] using h

/-! ## Keys that evaluate -/

/-- Hybrid enforcement over two validators: the first has keys of both schemes and signs with both, the
second has a hybrid identity without components. -/
def enforcedEnv (further : List PublicIdentityComponent) : Env :=
  { sampleEnv 1 with
    genesis :=
      { sampleGenesis with
        validators :=
          [{ validatorId := 1, devSecret := "secret-1", publicIdentity := sampleIdentity further },
            { validatorId := 2, devSecret := "secret-2", publicIdentity := { scheme := .hybrid } }] }
    config :=
      { (sampleEnv 1).config with
        featureFlags := { sampleFlags with requireHybridValidatorSignatures := true }
        signingBackend := .hybridDeterministicMlDsaExperimental
        signingKeyPath := some "ml-dsa-1.json" } }

theorem enforcedEnv_starts {further : List PublicIdentityComponent}
    (hfurther : further = [] ∨ further = [{ scheme := .ed25519, bytes := [3] }]) :
    ∃ C, startCrypto samplePrimitives sampleKeyFiles (enforcedEnv further) = .ok C := by
  have hok : (startCrypto samplePrimitives sampleKeyFiles (enforcedEnv further)).isOk = true := by
    obtain rfl | rfl := hfurther <;> decide +kernel
  cases hstart : startCrypto samplePrimitives sampleKeyFiles (enforcedEnv further) with
  | error e => simp [hstart, Except.isOk, Except.toBool] at hok
  | ok C => exact ⟨C, rfl⟩

theorem enforcedEnv_identity (further : List PublicIdentityComponent) :
    (identityMap (enforcedEnv further).genesis)[1]? = some (sampleIdentity further) ∧
      (identityMap (enforcedEnv further).genesis)[2]? = some { scheme := .hybrid } := by
  have hids : ((enforcedEnv further).genesis.validators.map (·.validatorId)).Nodup := by
    simp [enforcedEnv]
  exact ⟨Std.ExtTreeMap.getElem?_foldl_insert_of_nodup hids List.mem_cons_self,
    Std.ExtTreeMap.getElem?_foldl_insert_of_nodup hids (List.mem_cons_of_mem _ List.mem_cons_self)⟩

/-! ## Verification -/

/-- **No vacuous verification.** On a genesis a node starts with, whatever verifies for a validator was
checked under its own key, part by part, exactly if its identity is not hybrid without components. -/
theorem verify_never_vacuous_iff {SigningKey VerifyingKey : Type}
    {P : Primitives SigningKey VerifyingKey (List UInt8)} {files : KeyFiles} {E : Env}
    {C : ConfiguredCryptoBackend (List UInt8)} (hstart : startCrypto P files E = .ok C)
    (v : ValidatorId) :
    (∀ m s, C.verify v m s = .ok true → Checked P E.genesis v m s) ↔
      ∀ identity, (identityMap E.genesis)[v]? = some identity →
        identity.scheme = .hybrid → identity.components ≠ [] := by
  have hC := builtFrom_of_build (startCrypto_ok hstart).2
  constructor
  · intro hchecked identity hidentity hhybrid hnone
    refine not_checked_of_no_components (hchecked [] { scheme := .hybrid } ?_)
    exact verify_ok.2 ⟨identity, hC.identities ▸ hidentity, verifies_of_no_components hhybrid hnone⟩
  · intro hasks m s hverify
    obtain ⟨identity, hidentity, hverifies⟩ := verify_ok.1 hverify
    rw [hC.identities] at hidentity
    exact Verifies.checked hC hidentity (hasks identity hidentity) hverifies

theorem sample_identity_is_checked : ∃ C : ConfiguredCryptoBackend (List UInt8),
    startCrypto samplePrimitives sampleKeyFiles (enforcedEnv []) = .ok C ∧
      ∀ m s, C.verify 1 m s = .ok true → Checked samplePrimitives (enforcedEnv []).genesis 1 m s := by
  obtain ⟨C, hstart⟩ := enforcedEnv_starts (.inl rfl)
  refine ⟨C, hstart, (verify_never_vacuous_iff hstart 1).2 fun identity hidentity _ => ?_⟩
  obtain rfl := Option.some.inj ((enforcedEnv_identity []).1.symm.trans hidentity)
  simp [sampleIdentity]

/-- A genesis file may give a validator a hybrid identity without components. A node starts on it, with
hybrid signatures required, and takes the hybrid signature without components for any message. -/
theorem signature_without_components_verifies : ∃ C : ConfiguredCryptoBackend (List UInt8),
    PublicIdentity.container.deserializeHuman (sampleHumanFormat PublicKeyScheme)
        (.map [("scheme", .scheme .hybrid), ("bytes", .bytes [])]) = .ok { scheme := .hybrid } ∧
      (identityMap (enforcedEnv []).genesis)[2]? = some { scheme := .hybrid } ∧
      startCrypto samplePrimitives sampleKeyFiles (enforcedEnv []) = .ok C ∧
      C.verify 2 [1, 2, 3] { scheme := .hybrid } = .ok true ∧
      ¬Checked samplePrimitives (enforcedEnv []).genesis 2 [1, 2, 3] { scheme := .hybrid } := by
  obtain ⟨C, hstart⟩ := enforcedEnv_starts (.inl rfl)
  have hidentity := (enforcedEnv_identity []).2
  have hC := builtFrom_of_build (startCrypto_ok hstart).2
  refine ⟨C, rfl, hidentity, hstart, ?_, not_checked_of_no_components⟩
  exact verify_ok.2 ⟨_, hC.identities ▸ hidentity, verifies_of_no_components rfl rfl⟩

/-! ## Accepted configurations -/

section
variable {SigningKey VerifyingKey M : Type} {P : Primitives SigningKey VerifyingKey M}
variable {files : KeyFiles} {genesis : GenesisConfig} {config : NodeConfig}
variable {C : ConfiguredCryptoBackend M} {v : ValidatorId} {m : M} {identity : PublicIdentity}

/-- The signing key in the node's key file. -/
def ownSigningKey (P : Primitives SigningKey VerifyingKey M) (files : KeyFiles) (config : NodeConfig) :
    Option SigningKey := do
  let keyPath ← config.signingKeyPath
  let keyFile ← (files.readMlDsa65 keyPath).toOption
  P.mlDsa.decodeSigningKey keyFile.signingKey

theorem ownSigningKey_of_load {validator : ValidatorConfig} {signingKey : SigningKey}
    (h : loadMlDsaSigningMaterial P files validator config = .ok signingKey) :
    ownSigningKey P files config = some signingKey := by
  unfold loadMlDsaSigningMaterial at h
  cases hpath : config.signingKeyPath with
  | none => simp [hpath] at h
  | some keyPath =>
    rw [hpath] at h
    obtain ⟨keyFile, hfile, h⟩ := except_bind_ok.1 h
    obtain ⟨signingKey', hkey, h⟩ := except_bind_ok.1 h
    obtain ⟨verifyingKey, -, h⟩ := except_bind_ok.1 h
    have heq : signingKey' = signingKey := by
      dsimp only at h
      split at h
      · split_ifs at h
        exact Except.ok.inj h
      · split_ifs at h
        exact Except.ok.inj h
      · cases h
    have hdecode : P.mlDsa.decodeSigningKey keyFile.signingKey = some signingKey' := by
      unfold decodeMlDsaSigningKey at hkey
      cases hdecode : P.mlDsa.decodeSigningKey keyFile.signingKey with
      | none => simp [hdecode] at hkey
      | some key => simpa [hdecode] using hkey
    simp [ownSigningKey, hpath, hfile, hdecode, heq, Except.toOption]

/-! ### What verifies a node's own signatures -/

/-- The ML-DSA key of an identity verifies what was signed. -/
def KeyVerifies (P : Primitives SigningKey VerifyingKey M) (identity : PublicIdentity) (m : M)
    (bytes : List UInt8) : Prop :=
  ∃ encoded key, identity.mlDsaBytes = some encoded ∧
    P.mlDsa.decodeVerifyingKey encoded = some key ∧ P.mlDsa.verify key m bytes = true

theorem PublicIdentity.mlDsaBytes_isSome {i : PublicIdentity} :
    i.mlDsaBytes.isSome ↔ i.scheme = .mlDsa ∨ i.scheme = .hybrid ∧ (i.componentBytes .mlDsa).isSome := by
  unfold PublicIdentity.mlDsaBytes PublicIdentity.asSingleBytes
  cases i.scheme <;> simp

/-- A signature of one scheme verifies against an identity of that scheme, or with a component of it. -/
theorem verifies_single_iff (scheme : PublicKeyScheme) {t : SignatureScheme} {bytes : List UInt8}
    (hsigns : scheme.signatureScheme = some t) :
    C.Verifies v identity m (.single t bytes) ↔
      (identity.scheme = scheme ∨
        identity.scheme = .hybrid ∧ (identity.componentBytes scheme).isSome) ∧
        C.verifySingleSignatureComponent v m t bytes = .ok true := by
  have hplain : t ≠ .hybrid := by
    rintro rfl
    exact PublicKeyScheme.signatureScheme_ne_hybrid hsigns
  unfold Verifies
  by_cases hhybrid : identity.scheme = .hybrid
  · have hscheme : PublicKeyScheme.hybrid ≠ scheme := by
      rintro rfl
      cases hsigns
    rw [if_pos hhybrid, if_neg (show (TypedSignature.single t bytes).scheme ≠ .hybrid from hplain)]
    simp only [hhybrid, hscheme, false_or, true_and]
    constructor
    · rintro ⟨scheme', hsigns', hsome, hcheck⟩
      exact ⟨signatureScheme_inj hsigns' hsigns ▸ hsome, hcheck⟩
    · rintro ⟨hsome, hcheck⟩
      exact ⟨scheme, hsigns, hsome, hcheck⟩
  · simp only [hhybrid, if_false, false_and, or_false]
    constructor
    · rintro ⟨hsigns', hcheck⟩
      exact ⟨signatureScheme_inj hsigns' hsigns, hcheck⟩
    · rintro ⟨rfl, hcheck⟩
      exact ⟨hsigns, hcheck⟩

/-- The hybrid signature of both keys verifies against a hybrid identity of two components that are each
for one of them. -/
theorem verifies_hybrid_iff {d b : List UInt8} :
    C.Verifies v identity m
        { scheme := .hybrid
          components := [{ scheme := .devDeterministic, bytes := d }, { scheme := .mlDsa, bytes := b }] } ↔
      identity.scheme = .hybrid ∧ identity.components.length = 2 ∧
        ∀ c ∈ identity.components,
          c.scheme = .devDeterministic ∧
              C.verifySingleSignatureComponent v m .devDeterministic d = .ok true ∨
            c.scheme = .mlDsa ∧ C.verifySingleSignatureComponent v m .mlDsa b = .ok true := by
  have hcomponent : ∀ c : PublicIdentityComponent,
      (∃ scheme bytes, c.scheme.signatureScheme = some scheme ∧
        TypedSignature.componentBytes
            { scheme := .hybrid
              components := [{ scheme := .devDeterministic, bytes := d },
                { scheme := .mlDsa, bytes := b }] } scheme = some bytes ∧
          C.verifySingleSignatureComponent v m scheme bytes = .ok true) ↔
        c.scheme = .devDeterministic ∧
            C.verifySingleSignatureComponent v m .devDeterministic d = .ok true ∨
          c.scheme = .mlDsa ∧ C.verifySingleSignatureComponent v m .mlDsa b = .ok true := by
    intro c
    cases c.scheme <;>
      simp [PublicKeyScheme.signatureScheme, TypedSignature.componentBytes]
  unfold Verifies
  by_cases hhybrid : identity.scheme = .hybrid
  · simp only [if_true, hhybrid, true_and, hcomponent, List.length_cons,
      List.length_nil, Nat.zero_add, eq_comm (a := 1 + 1)]
  · simp [hhybrid, PublicKeyScheme.signatureScheme_ne_hybrid]

/-- The ML-DSA part of a signature verifies, where the identity has a key for it, by that key. -/
theorem mlDsa_component_iff (hC : C.BuiltFrom P genesis)
    (hidentity : (identityMap genesis)[v]? = some identity) (hsome : identity.mlDsaBytes.isSome)
    {bytes : List UInt8} :
    C.verifySingleSignatureComponent v m .mlDsa bytes = .ok true ↔
      KeyVerifies P identity m bytes := by
  obtain ⟨encoded, hencoded⟩ := Option.isSome_iff_exists.1 hsome
  rw [hC.mlDsa_ok hidentity hencoded]
  simp [KeyVerifies, hencoded]

/-! ### What a node signs -/

theorem sign_deterministic {secret : String}
    (hsecret : C.deterministic.secrets[v]? = some secret)
    (hbackend : C.localSigningBackend = .deterministic) :
    C.sign v m =
      .ok (.single .devDeterministic (HashBytes.toVec (C.deterministic.hashSecret secret m))) := by
  simp [ConfiguredCryptoBackend.sign, hbackend, DeterministicCryptoBackend.sign,
    DeterministicCryptoBackend.secret, hsecret, TypedSignature.single, bind, Except.bind]

theorem sign_mlDsa (hlocal : C.localValidatorId = v) (hbackend : C.localSigningBackend = .mlDsa65) :
    C.sign v m = .ok (.single .mlDsa (C.mlDsa.sign m)) := by
  simp [ConfiguredCryptoBackend.sign, hbackend, hlocal]

theorem sign_hybrid {secret : String} (hlocal : C.localValidatorId = v)
    (hsecret : C.deterministic.secrets[v]? = some secret)
    (hbackend : C.localSigningBackend = .hybridDeterministicMlDsa65) :
    C.sign v m = .ok
      { scheme := .hybrid
        components :=
          [{ scheme := .devDeterministic
             bytes := HashBytes.toVec (C.deterministic.hashSecret secret m) },
            { scheme := .mlDsa, bytes := C.mlDsa.sign m }] } := by
  simp [ConfiguredCryptoBackend.sign, hbackend, hlocal, DeterministicCryptoBackend.sign,
    DeterministicCryptoBackend.secret, hsecret, TypedSignature.asSingleBytes, bind, Except.bind]

/-- The validator's own signatures verify for every node of the genesis. -/
def SignsVerifiably (P : Primitives SigningKey VerifyingKey M) (genesis : GenesisConfig)
    (config : NodeConfig) (C : ConfiguredCryptoBackend M) : Prop :=
  ∀ m, ∃ s, C.sign config.validatorId m = .ok s ∧
    ∀ files' config' C', buildCryptoBackend P files' genesis config' = .ok C' →
      C'.verify config.validatorId m s = .ok true

/-- The ML-DSA key of an identity is the public key of the node's signing key. -/
def KeyMatches (P : Primitives SigningKey VerifyingKey M) (files : KeyFiles)
    (publicKey : SigningKey → VerifyingKey) (config : NodeConfig) (identity : PublicIdentity) : Prop :=
  ∃ encoded signingKey, identity.mlDsaBytes = some encoded ∧
    ownSigningKey P files config = some signingKey ∧
    P.mlDsa.decodeVerifyingKey encoded = some (publicKey signingKey)

/-- The identity that the backends keep for a node suits its signing backend. -/
def SuitsBackend (P : Primitives SigningKey VerifyingKey M) (files : KeyFiles)
    (publicKey : SigningKey → VerifyingKey) (config : NodeConfig) (identity : PublicIdentity) : Prop :=
  match config.signingBackend with
  | .devDeterministic =>
    identity.scheme = .devDeterministic ∨
      identity.scheme = .hybrid ∧ (identity.componentBytes .devDeterministic).isSome
  | .mlDsa65Experimental => KeyMatches P files publicKey config identity
  | .hybridDeterministicMlDsaExperimental =>
    identity.scheme = .hybrid ∧ identity.components.length = 2 ∧
      (∀ c ∈ identity.components, c.scheme = .devDeterministic ∨ c.scheme = .mlDsa) ∧
      (identity.mlDsaBytes.isSome → KeyMatches P files publicKey config identity)

/-- What a node signs is verified alike by every backend of the genesis. -/
theorem signsVerifiably_iff {s : M → TypedSignature} {Q : M → Prop}
    (hbuild : buildCryptoBackend P files genesis config = .ok C)
    (hsign : ∀ m, C.sign config.validatorId m = .ok (s m))
    (hidentity : (identityMap genesis)[config.validatorId]? = some identity)
    (hverifies : ∀ m (C' : ConfiguredCryptoBackend M), C'.BuiltFrom P genesis →
      (C'.Verifies config.validatorId identity m (s m) ↔ Q m)) :
    SignsVerifiably P genesis config C ↔ ∀ m, Q m := by
  constructor
  · intro hsigns m
    obtain ⟨s', hs', hall⟩ := hsigns m
    obtain rfl := Except.ok.inj ((hsign m).symm.trans hs')
    have hC := builtFrom_of_build hbuild
    obtain ⟨identity', hidentity', h⟩ := verify_ok.1 (hall files config C hbuild)
    rw [hC.identities, hidentity] at hidentity'
    obtain rfl := Option.some.inj hidentity'
    exact (hverifies m C hC).1 h
  · intro hQ m
    refine ⟨s m, hsign m, fun files' config' C' hbuild' => ?_⟩
    have hC' := builtFrom_of_build hbuild'
    exact verify_ok.2 ⟨identity, hC'.identities ▸ hidentity, (hverifies m C' hC').2 (hQ m)⟩

theorem KeyMatches.verifies {publicKey : SigningKey → VerifyingKey} {signingKey : SigningKey}
    (hcorrect : ∀ sk m, P.mlDsa.verify (publicKey sk) m (P.mlDsa.sign sk m) = true)
    (hown : ownSigningKey P files config = some signingKey)
    (hmatches : KeyMatches P files publicKey config identity) (m : M) :
    KeyVerifies P identity m (P.mlDsa.sign signingKey m) := by
  obtain ⟨encoded, signingKey', hencoded, hown', hdecode⟩ := hmatches
  obtain rfl := Option.some.inj (hown.symm.trans hown')
  exact ⟨encoded, _, hencoded, hdecode, hcorrect _ _⟩

theorem KeyMatches.of_verifies [Inhabited M] {publicKey : SigningKey → VerifyingKey}
    {signingKey : SigningKey}
    (hseparates : ∀ sk vk, (∀ m, P.mlDsa.verify vk m (P.mlDsa.sign sk m) = true) → vk = publicKey sk)
    (hown : ownSigningKey P files config = some signingKey)
    (hverifies : ∀ m, KeyVerifies P identity m (P.mlDsa.sign signingKey m)) :
    KeyMatches P files publicKey config identity := by
  obtain ⟨encoded, key, hencoded, hdecode, -⟩ := hverifies default
  have hkey : key = publicKey signingKey := by
    refine hseparates signingKey key fun m => ?_
    obtain ⟨encoded', key', hencoded', hdecode', hverify⟩ := hverifies m
    obtain rfl := Option.some.inj (hencoded.symm.trans hencoded')
    obtain rfl := Option.some.inj (hdecode.symm.trans hdecode')
    exact hverify
  exact ⟨encoded, signingKey, hencoded, hown, hkey ▸ hdecode⟩

/-- What a backend's own signature needs of the identity, message by message. -/
def SuitsMessage (P : Primitives SigningKey VerifyingKey M) (identity : PublicIdentity) (m : M) :
    LocalSigningBackend → Option SigningKey → Prop
  | .deterministic, _ =>
    identity.scheme = .devDeterministic ∨
      identity.scheme = .hybrid ∧ (identity.componentBytes .devDeterministic).isSome
  | .mlDsa65, some signingKey => KeyVerifies P identity m (P.mlDsa.sign signingKey m)
  | .hybridDeterministicMlDsa65, some signingKey =>
    identity.scheme = .hybrid ∧ identity.components.length = 2 ∧
      (∀ c ∈ identity.components, c.scheme = .devDeterministic ∨ c.scheme = .mlDsa) ∧
      (identity.mlDsaBytes.isSome → KeyVerifies P identity m (P.mlDsa.sign signingKey m))
  | _, none => False

theorem signsVerifiably_iff_suitsMessage {validator : ValidatorConfig} {session : LocalSessionBackend}
    {signing : LocalSigningBackend} {signingKey : Option SigningKey}
    (hbuild : buildCryptoBackend P files genesis config = .ok C)
    (hvalidator : validatorConfig genesis config.validatorId = .ok validator)
    (hmaterial : SigningMaterial P files validator config signing signingKey)
    (hconfigured : configuredBackend P genesis config session signing signingKey = .ok C)
    (hidentity : (identityMap genesis)[config.validatorId]? = some identity) :
    SignsVerifiably P genesis config C ↔ ∀ m, SuitsMessage P identity m signing signingKey := by
  obtain ⟨hC, hlocal, hbackend, -, hmlDsa⟩ := configuredBackend_ok hconfigured
  obtain ⟨⟨secret, hsecret⟩, -⟩ := exists_of_validatorConfig hvalidator
  have hown : C.deterministic.secrets[config.validatorId]? = some secret := by
    rw [hC.deterministic, hsecret]
  have hhash : C.deterministic.hashSecret = P.hashSecret := by rw [hC.deterministic]
  have hcheck : ∀ m (C' : ConfiguredCryptoBackend M), C'.BuiltFrom P genesis →
      C'.verifySingleSignatureComponent config.validatorId m .devDeterministic
        (HashBytes.toVec (C.deterministic.hashSecret secret m)) = .ok true := fun m C' hC' =>
    hC'.deterministic_ok.2 ⟨secret, hsecret, by rw [hhash]⟩
  cases hmaterial with
  | deterministic =>
    refine signsVerifiably_iff hbuild (fun m => sign_deterministic hown hbackend) hidentity
      fun m C' hC' => ?_
    rw [verifies_single_iff .devDeterministic rfl]
    exact and_iff_left (hcheck m C' hC')
  | @mlDsa65 signingKey =>
    refine signsVerifiably_iff hbuild (fun m => sign_mlDsa hlocal hbackend) hidentity
      fun m C' hC' => ?_
    rw [verifies_single_iff .mlDsa rfl, ← PublicIdentity.mlDsaBytes_isSome, hmlDsa]
    constructor
    · rintro ⟨hsome, hverify⟩
      exact (mlDsa_component_iff hC' hidentity hsome).1 hverify
    · intro hverify
      obtain ⟨encoded, _, hencoded, -⟩ := id hverify
      have hsome : identity.mlDsaBytes.isSome := hencoded ▸ rfl
      exact ⟨hsome, (mlDsa_component_iff hC' hidentity hsome).2 hverify⟩
  | @hybrid signingKey =>
    refine signsVerifiably_iff hbuild (fun m => sign_hybrid hlocal hown hbackend) hidentity
      fun m C' hC' => ?_
    rw [verifies_hybrid_iff, hmlDsa]
    refine and_congr_right fun hhybrid => and_congr_right fun _ => ?_
    have hsome_iff : identity.mlDsaBytes.isSome ↔ ∃ c ∈ identity.components, c.scheme = .mlDsa := by
      rw [identity.mlDsaBytes_of_hybrid hhybrid, PublicIdentity.componentBytes_of_hybrid hhybrid]
    constructor
    · intro hcomponents
      refine ⟨fun c hc => (hcomponents c hc).imp And.left And.left, fun hsome => ?_⟩
      obtain ⟨c, hc, hscheme⟩ := hsome_iff.1 hsome
      rcases hcomponents c hc with ⟨hdev, -⟩ | ⟨-, hverify⟩
      · rw [hscheme] at hdev
        cases hdev
      · exact (mlDsa_component_iff hC' hidentity hsome).1 hverify
    · rintro ⟨hschemes, hverifies⟩ c hc
      rcases hschemes c hc with hscheme | hscheme
      · exact .inl ⟨hscheme, hcheck m C' hC'⟩
      · have hsome := hsome_iff.2 ⟨c, hc, hscheme⟩
        exact .inr ⟨hscheme, (mlDsa_component_iff hC' hidentity hsome).2 (hverifies hsome)⟩

/-- A node whose identity suits its backend makes signatures that verify. -/
theorem SuitsBackend.signsVerifiably {P : Primitives SigningKey VerifyingKey (List UInt8)}
    {C : ConfiguredCryptoBackend (List UInt8)} {publicKey : SigningKey → VerifyingKey}
    (hcorrect : ∀ sk m, P.mlDsa.verify (publicKey sk) m (P.mlDsa.sign sk m) = true)
    (hbuild : buildCryptoBackend P files genesis config = .ok C)
    (hidentity : (identityMap genesis)[config.validatorId]? = some identity)
    (h : SuitsBackend P files publicKey config identity) : SignsVerifiably P genesis config C := by
  obtain ⟨validator, session, signing, signingKey, hvalidator, -, hmaterial, hconfigured⟩ :=
    buildCryptoBackend_ok hbuild
  rw [signsVerifiably_iff_suitsMessage hbuild hvalidator hmaterial hconfigured hidentity]
  unfold SuitsBackend at h
  intro m
  cases hmaterial with
  | deterministic hkind =>
    rw [hkind] at h
    exact h
  | mlDsa65 hkind hkey =>
    rw [hkind] at h
    exact h.verifies hcorrect (ownSigningKey_of_load hkey) m
  | hybrid hkind _ hkey =>
    rw [hkind] at h
    obtain ⟨hhybrid, hlength, hschemes, hmatches⟩ := h
    exact ⟨hhybrid, hlength, hschemes, fun hsome =>
      (hmatches hsome).verifies hcorrect (ownSigningKey_of_load hkey) m⟩

/-- Signatures that verify are made with keys that suit, where no other key than the public key of a
signing key takes all its signatures. -/
theorem SuitsBackend.of_signsVerifiably {P : Primitives SigningKey VerifyingKey (List UInt8)}
    {C : ConfiguredCryptoBackend (List UInt8)} {publicKey : SigningKey → VerifyingKey}
    (hseparates : ∀ sk vk, (∀ m, P.mlDsa.verify vk m (P.mlDsa.sign sk m) = true) → vk = publicKey sk)
    (hbuild : buildCryptoBackend P files genesis config = .ok C)
    (hidentity : (identityMap genesis)[config.validatorId]? = some identity)
    (h : SignsVerifiably P genesis config C) : SuitsBackend P files publicKey config identity := by
  obtain ⟨validator, session, signing, signingKey, hvalidator, -, hmaterial, hconfigured⟩ :=
    buildCryptoBackend_ok hbuild
  rw [signsVerifiably_iff_suitsMessage hbuild hvalidator hmaterial hconfigured hidentity] at h
  unfold SuitsBackend
  cases hmaterial with
  | deterministic hkind =>
    rw [hkind]
    exact h []
  | mlDsa65 hkind hkey =>
    rw [hkind]
    exact .of_verifies hseparates (ownSigningKey_of_load hkey) h
  | hybrid hkind _ hkey =>
    rw [hkind]
    obtain ⟨hhybrid, hlength, hschemes, -⟩ := h []
    exact ⟨hhybrid, hlength, hschemes, fun hsome =>
      .of_verifies hseparates (ownSigningKey_of_load hkey) fun m => (h m).2.2.2 hsome⟩

end

/-- **Signing after start-up.** A node that was accepted makes signatures that every node of the genesis
verifies, if the identity kept for it suits its backend; and only then, as other keys than the public key
of a signing key refuse some signature of it. -/
theorem accepted_configuration_signs_iff {SigningKey VerifyingKey : Type}
    {P : Primitives SigningKey VerifyingKey (List UInt8)} {publicKey : SigningKey → VerifyingKey}
    (hcorrect : ∀ sk m, P.mlDsa.verify (publicKey sk) m (P.mlDsa.sign sk m) = true)
    {files : KeyFiles} {genesis : GenesisConfig} {config : NodeConfig}
    {C : ConfiguredCryptoBackend (List UInt8)}
    (hbuild : buildCryptoBackend P files genesis config = .ok C) :
    ∃ identity, (identityMap genesis)[config.validatorId]? = some identity ∧
      (SuitsBackend P files publicKey config identity → SignsVerifiably P genesis config C) ∧
      ((∀ sk vk, (∀ m, P.mlDsa.verify vk m (P.mlDsa.sign sk m) = true) → vk = publicKey sk) →
        SignsVerifiably P genesis config C → SuitsBackend P files publicKey config identity) := by
  obtain ⟨validator, _, _, _, hvalidator, -⟩ := buildCryptoBackend_ok hbuild
  obtain ⟨-, ⟨identity, hidentity⟩, -⟩ := exists_of_validatorConfig hvalidator
  exact ⟨identity, hidentity, fun hsuits => hsuits.signsVerifiably hcorrect hbuild hidentity,
    fun hseparates hsigns => .of_signsVerifiably hseparates hbuild hidentity hsigns⟩

theorem sample_configuration_signs : ∃ C : ConfiguredCryptoBackend (List UInt8),
    buildCryptoBackend samplePrimitives sampleKeyFiles (enforcedEnv []).genesis
        (enforcedEnv []).config = .ok C ∧
      SignsVerifiably samplePrimitives (enforcedEnv []).genesis (enforcedEnv []).config C := by
  obtain ⟨C, hstart⟩ := enforcedEnv_starts (.inl rfl)
  have hbuild := (startCrypto_ok hstart).2
  have hcorrect : ∀ sk m, samplePrimitives.mlDsa.verify (id sk) m (samplePrimitives.mlDsa.sign sk m) =
      true := by
    simp [samplePrimitives]
  obtain ⟨identity, hidentity, hsuits, -⟩ := accepted_configuration_signs_iff hcorrect hbuild
  obtain rfl := Option.some.inj ((enforcedEnv_identity []).1.symm.trans hidentity)
  refine ⟨C, hbuild, hsuits ⟨rfl, rfl, by simp [sampleIdentity], fun _ => ?_⟩⟩
  exact ⟨[7, 1], [7, 1], rfl, rfl, rfl⟩

/-- A hybrid identity with a third component, of a scheme that no backend signs with, passes the checks of
the start. The validator's signatures are refused by its own node. -/
theorem third_component_is_never_signed : ∃ C : ConfiguredCryptoBackend (List UInt8),
    let E := enforcedEnv [{ scheme := .ed25519, bytes := [3] }]
    PublicIdentity.container.Built (sampleIdentity [{ scheme := .ed25519, bytes := [3] }]) ∧
      startCrypto samplePrimitives sampleKeyFiles E = .ok C ∧
      buildCryptoBackend samplePrimitives sampleKeyFiles E.genesis E.config = .ok C ∧
      ∃ s, C.sign E.config.validatorId [1, 2, 3] = .ok s ∧
        C.verify E.config.validatorId [1, 2, 3] s = .ok false := by
  obtain ⟨C, hstart⟩ := enforcedEnv_starts (.inr rfl)
  have hbuild := (startCrypto_ok hstart).2
  refine ⟨C, .hybrid [(.devDeterministic, utf8Bytes "validator-1"), (.mlDsa, [7, 1]),
    (.ed25519, [3])] (by decide), hstart, hbuild, ?_⟩
  have hrun : (do
      let C ← buildCryptoBackend samplePrimitives sampleKeyFiles
        (enforcedEnv [{ scheme := .ed25519, bytes := [3] }]).genesis
        (enforcedEnv [{ scheme := .ed25519, bytes := [3] }]).config
      let s ← C.sign 1 [1, 2, 3]
      C.verify 1 [1, 2, 3] s).toOption = some false := by
    decide +kernel
  obtain ⟨C', hC', hrun⟩ := except_bind_ok.1 (toOption_eq_some.1 hrun)
  obtain rfl := Except.ok.inj (hbuild.symm.trans hC')
  exact except_bind_ok.1 hrun

end Entangrid
