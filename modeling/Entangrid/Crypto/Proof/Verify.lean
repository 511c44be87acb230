import Entangrid.Crypto.Build
import Entangrid.Error
import Entangrid.Lib.MapTotal

/-!
# What the crypto backend verifies

* `verifySignatureAgainstIdentity_ok`: when a signature verifies against an identity, by the scheme of
  the identity.
* `buildCryptoBackend_ok`, `BuiltFrom`: the checks a backend has passed when it is built, and what its
  maps hold.
* `BuiltFrom.deterministic_ok`, `BuiltFrom.mlDsa_ok`: what the two primitive checks come to for a backend
  of the genesis.
-/

namespace Entangrid

/-! ## The components of a signature -/

/-- The signatures made with keys of a scheme. -/
def PublicKeyScheme.signatureScheme : PublicKeyScheme → Option SignatureScheme
  | .devDeterministic => some .devDeterministic
  | .mlDsa => some .mlDsa
  | _ => none

theorem TypedSignature.componentBytes_of_single {s : TypedSignature} (h : s.scheme ≠ .hybrid) :
    s.componentBytes s.scheme = some s.bytes := by
  simp [TypedSignature.componentBytes, h]

theorem PublicIdentity.componentBytes_of_hybrid {i : PublicIdentity} (h : i.scheme = .hybrid)
    {scheme : PublicKeyScheme} :
    (i.componentBytes scheme).isSome ↔ ∃ c ∈ i.components, c.scheme = scheme := by
  simp [PublicIdentity.componentBytes, h]

namespace ConfiguredCryptoBackend

variable {M : Type} {C : ConfiguredCryptoBackend M} {v : ValidatorId} {m : M} {s : TypedSignature}

/-! ## Verification -/

theorem verifySingle_ok {scheme : SignatureScheme} :
    C.verifySingle v m s scheme = .ok true ↔ s.scheme = scheme ∧ s.scheme ≠ .hybrid ∧
      C.verifySingleSignatureComponent v m scheme s.bytes = .ok true := by
  unfold verifySingle
  by_cases hscheme : s.scheme = scheme
  · rw [if_neg (not_not_intro hscheme)]
    by_cases hhybrid : s.scheme = .hybrid
    · simp [TypedSignature.asSingleBytes, hhybrid]
    · rw [TypedSignature.asSingleBytes, if_neg hhybrid]
      simp [hscheme, hscheme ▸ hhybrid]
  · simp [hscheme]

theorem verifyComponents_cons {component : PublicIdentityComponent}
    {rest : List PublicIdentityComponent} :
    C.verifyComponents v m s (component :: rest) =
      match component.scheme.signatureScheme with
      | none => .ok false
      | some scheme =>
        match s.componentBytes scheme with
        | none => .ok false
        | some bytes =>
          C.verifySingleSignatureComponent v m scheme bytes >>= fun verified =>
            if verified then C.verifyComponents v m s rest else .ok false := by
  obtain ⟨scheme, bytes⟩ := component
  cases scheme <;> rfl

/-- The loop passes when every component of the identity finds its signature, and that one verifies. -/
theorem verifyComponents_ok {components : List PublicIdentityComponent} :
    C.verifyComponents v m s components = .ok true ↔
      ∀ c ∈ components, ∃ scheme bytes, c.scheme.signatureScheme = some scheme ∧
        s.componentBytes scheme = some bytes ∧
        C.verifySingleSignatureComponent v m scheme bytes = .ok true := by
  induction components with
  | nil => simp [verifyComponents]
  | cons component rest ih =>
    rw [List.forall_mem_cons, ← ih, verifyComponents_cons]
    cases component.scheme.signatureScheme with
    | none => simp
    | some scheme =>
      cases hbytes : s.componentBytes scheme with
      | none => simp [hbytes]
      | some bytes =>
        simp only [Option.some.injEq, exists_and_left, exists_eq_left', hbytes]
        constructor
        · intro h
          obtain ⟨verified, hcheck, h⟩ := except_bind_ok.1 h
          cases verified with
          | false => simp at h
          | true => exact ⟨hcheck, h⟩
        · rintro ⟨hcheck, h⟩
          exact except_bind_ok.2 ⟨true, hcheck, h⟩

/-- What an identity asks of a signature: its own scheme's check; a hybrid one asks a hybrid signature
for all its components, and any other for one of them. -/
def Verifies (C : ConfiguredCryptoBackend M) (v : ValidatorId) (identity : PublicIdentity) (m : M)
    (s : TypedSignature) : Prop :=
  if identity.scheme = .hybrid then
    if s.scheme = .hybrid then
      s.components.length = identity.components.length ∧
        ∀ c ∈ identity.components, ∃ scheme bytes, c.scheme.signatureScheme = some scheme ∧
          s.componentBytes scheme = some bytes ∧
          C.verifySingleSignatureComponent v m scheme bytes = .ok true
    else
      ∃ scheme, scheme.signatureScheme = some s.scheme ∧ (identity.componentBytes scheme).isSome ∧
        C.verifySingleSignatureComponent v m s.scheme s.bytes = .ok true
  else
    identity.scheme.signatureScheme = some s.scheme ∧
      C.verifySingleSignatureComponent v m s.scheme s.bytes = .ok true

theorem signatureScheme_inj {scheme scheme' : PublicKeyScheme} {t : SignatureScheme}
    (h : scheme.signatureScheme = some t) (h' : scheme'.signatureScheme = some t) :
    scheme = scheme' := by
  rw [← h] at h'
  cases scheme <;> cases scheme' <;> simp [PublicKeyScheme.signatureScheme] at h h' ⊢

/-- One signature against a component of a hybrid identity. -/
theorem verifySingle_component {identity : PublicIdentity} (scheme : PublicKeyScheme)
    (hsigns : scheme.signatureScheme = some s.scheme) :
    (if (identity.componentBytes scheme).isNone then .ok false
      else C.verifySingle v m s s.scheme) = .ok true ↔
      ∃ scheme, scheme.signatureScheme = some s.scheme ∧ (identity.componentBytes scheme).isSome ∧
        C.verifySingleSignatureComponent v m s.scheme s.bytes = .ok true := by
  have hplain : s.scheme ≠ .hybrid := by
    intro h
    rw [h] at hsigns
    cases scheme <;> simp [PublicKeyScheme.signatureScheme] at hsigns
  cases hbytes : identity.componentBytes scheme with
  | none =>
    refine ⟨fun h => by simp at h, ?_⟩
    rintro ⟨scheme', hsigns', hsome, -⟩
    rw [signatureScheme_inj hsigns' hsigns, hbytes] at hsome
    simp at hsome
  | some bytes =>
    rw [Option.isNone_some, if_neg Bool.false_ne_true, verifySingle_ok]
    exact ⟨fun h => ⟨scheme, hsigns, by rw [hbytes]; rfl, h.2.2⟩,
      fun ⟨_, _, _, hcheck⟩ => ⟨rfl, hplain, hcheck⟩⟩

theorem verifySignatureAgainstIdentity_ok {identity : PublicIdentity} :
    C.verifySignatureAgainstIdentity v identity m s = .ok true ↔ C.Verifies v identity m s := by
  unfold verifySignatureAgainstIdentity Verifies
  cases hidentity : identity.scheme with
  | devDeterministic =>
    rw [verifySingle_ok]
    cases s.scheme <;> simp [PublicKeyScheme.signatureScheme]
  | mlDsa =>
    rw [verifySingle_ok]
    cases s.scheme <;> simp [PublicKeyScheme.signatureScheme]
  | ed25519 => simp [PublicKeyScheme.signatureScheme]
  | hybrid =>
    by_cases hscheme : s.scheme = .hybrid
    · by_cases hlength : s.components.length = identity.components.length
      · simp [hscheme, hlength, verifyComponents_ok]
      · simp [hscheme, hlength]
    · simp only [if_neg hscheme, if_true]
      obtain ⟨scheme, bytes, components⟩ := s
      cases scheme with
      | hybrid => exact absurd rfl hscheme
      | ed25519 =>
        refine ⟨fun h => by simp at h, ?_⟩
        rintro ⟨scheme, hsigns, -⟩
        cases scheme <;> simp [PublicKeyScheme.signatureScheme] at hsigns
      | devDeterministic => exact verifySingle_component .devDeterministic rfl
      | mlDsa => exact verifySingle_component .mlDsa rfl

theorem verify_ok :
    C.verify v m s = .ok true ↔
      ∃ identity, C.identities[v]? = some identity ∧ C.Verifies v identity m s := by
  unfold verify
  cases C.identities[v]? with
  | none => simp
  | some identity => simp [verifySignatureAgainstIdentity_ok]

end ConfiguredCryptoBackend

/-! ## Building a backend -/

section
variable {SigningKey VerifyingKey M : Type} {P : Primitives SigningKey VerifyingKey M}
variable {files : KeyFiles} {genesis : GenesisConfig} {config : NodeConfig}
variable {C : ConfiguredCryptoBackend M}

/-- The checks that a node's own configuration has passed, by its signing backend. -/
inductive SigningMaterial (P : Primitives SigningKey VerifyingKey M) (files : KeyFiles)
    (validator : ValidatorConfig) (config : NodeConfig) : LocalSigningBackend → Option SigningKey → Prop
  | deterministic (hkind : config.signingBackend = .devDeterministic)
    (hidentity : validateDeterministicIdentity validator = .ok ()) :
    SigningMaterial P files validator config .deterministic none
  | mlDsa65 {signingKey} (hkind : config.signingBackend = .mlDsa65Experimental)
    (hkey : loadMlDsaSigningMaterial P files validator config = .ok signingKey) :
    SigningMaterial P files validator config .mlDsa65 (some signingKey)
  | hybrid {signingKey} (hkind : config.signingBackend = .hybridDeterministicMlDsaExperimental)
    (hidentity : validateDeterministicIdentity validator = .ok ())
    (hkey : loadMlDsaSigningMaterial P files validator config = .ok signingKey) :
    SigningMaterial P files validator config .hybridDeterministicMlDsa65 (some signingKey)

theorem buildCryptoBackend_ok (h : buildCryptoBackend P files genesis config = .ok C) :
    ∃ validator session signing signingKey,
      validatorConfig genesis config.validatorId = .ok validator ∧
        buildLocalSessionBackend files validator config = .ok session ∧
        SigningMaterial P files validator config signing signingKey ∧
        configuredBackend P genesis config session signing signingKey = .ok C := by
  obtain ⟨validator, hvalidator, h⟩ := except_bind_ok.1 h
  obtain ⟨session, hsession, h⟩ := except_bind_ok.1 h
  refine ⟨validator, session, ?_⟩
  cases hkind : config.signingBackend <;> rw [hkind] at h
  · obtain ⟨_, hidentity, h⟩ := except_bind_ok.1 h
    exact ⟨_, _, hvalidator, hsession, .deterministic hkind hidentity, h⟩
  · obtain ⟨signingKey, hkey, h⟩ := except_bind_ok.1 h
    exact ⟨_, _, hvalidator, hsession, .mlDsa65 hkind hkey, h⟩
  · obtain ⟨_, hidentity, h⟩ := except_bind_ok.1 h
    obtain ⟨signingKey, hkey, h⟩ := except_bind_ok.1 h
    exact ⟨_, _, hvalidator, hsession, .hybrid hkind hidentity hkey, h⟩

/-- A backend with the maps of a genesis, whoever's it is. -/
structure ConfiguredCryptoBackend.BuiltFrom (P : Primitives SigningKey VerifyingKey M)
    (genesis : GenesisConfig) (C : ConfiguredCryptoBackend M) : Prop where
  deterministic : C.deterministic =
    { hashSecret := P.hashSecret, secrets := DeterministicCryptoBackend.secretMap genesis }
  identities : C.identities = ConfiguredCryptoBackend.identityMap genesis
  sessionIdentities : C.sessionIdentities = buildSessionIdentityMap genesis
  verifyingKeys : ∃ keys, buildMlDsaVerifyingKeyMap P genesis = .ok keys ∧
    C.mlDsa.verify = fun v => keys[v]?.map P.mlDsa.verify

theorem configuredBackend_ok {session : LocalSessionBackend} {signing : LocalSigningBackend}
    {signingKey : Option SigningKey}
    (h : configuredBackend P genesis config session signing signingKey = .ok C) :
    C.BuiltFrom P genesis ∧ C.localValidatorId = config.validatorId ∧
      C.localSigningBackend = signing ∧ C.localSessionBackend = session ∧
      C.mlDsa.sign = fun m => (signingKey.map (P.mlDsa.sign · m)).getD [] := by
  obtain ⟨keys, hkeys, h⟩ := except_bind_ok.1 h
  obtain rfl := Except.ok.inj h
  exact ⟨⟨rfl, rfl, rfl, keys, hkeys, rfl⟩, rfl, rfl, rfl, rfl⟩

theorem builtFrom_of_build (h : buildCryptoBackend P files genesis config = .ok C) :
    C.BuiltFrom P genesis := by
  obtain ⟨_, _, _, _, -, -, -, h⟩ := buildCryptoBackend_ok h
  exact (configuredBackend_ok h).1

theorem validatorConfig_ok {v : ValidatorId} {validator : ValidatorConfig}
    (h : validatorConfig genesis v = .ok validator) :
    validator ∈ genesis.validators ∧ validator.validatorId = v := by
  unfold validatorConfig at h
  cases hfind : genesis.validators.find? (·.validatorId == v) with
  | none => simp [hfind] at h
  | some x =>
    obtain rfl : x = validator := by simpa [hfind] using h
    exact ⟨List.mem_of_find?_eq_some hfind, by simpa using List.find?_some hfind⟩

/-- The maps of the backend have every validator that is configured. -/
theorem exists_of_validatorConfig {v : ValidatorId} {validator : ValidatorConfig}
    (h : validatorConfig genesis v = .ok validator) :
    (∃ secret, (DeterministicCryptoBackend.secretMap genesis)[v]? = some secret) ∧
      (∃ identity, (ConfiguredCryptoBackend.identityMap genesis)[v]? = some identity) ∧
      ∃ identity, (buildSessionIdentityMap genesis)[v]? = some identity := by
  obtain ⟨hx, hid⟩ := validatorConfig_ok h
  have hlast : ∃ y, genesis.validators.reverse.find? (·.validatorId = v) = some y :=
    Option.isSome_iff_exists.1 (List.find?_isSome.2 ⟨validator, List.mem_reverse.2 hx, by simpa using hid⟩)
  obtain ⟨y, hy⟩ := hlast
  refine ⟨⟨y.devSecret, ?_⟩, ⟨y.publicIdentity, ?_⟩, ⟨y.sessionPublicIdentity, ?_⟩⟩
  · simp [DeterministicCryptoBackend.secretMap, Std.ExtTreeMap.getElem?_foldl_insert, hy]
  · simp [ConfiguredCryptoBackend.identityMap, Std.ExtTreeMap.getElem?_foldl_insert, hy]
  · simp [buildSessionIdentityMap, Std.ExtTreeMap.getElem?_foldl_insert, hy]

/-! ## The verifying keys -/

/-- The ML-DSA key of an identity that has one is in the map. -/
def KeysOf (P : Primitives SigningKey VerifyingKey M) (identities : BTreeMap ValidatorId PublicIdentity)
    (keys : BTreeMap ValidatorId VerifyingKey) : Prop :=
  ∀ (v : ValidatorId) (identity : PublicIdentity) (encoded : List UInt8),
    identities[v]? = some identity → identity.mlDsaBytes = some encoded →
      ∃ key, P.mlDsa.decodeVerifyingKey encoded = some key ∧ keys[v]? = some key

theorem decodeMlDsaVerifyingKey_ok {encoded : List UInt8} {key : VerifyingKey} :
    decodeMlDsaVerifyingKey P encoded = .ok key ↔ P.mlDsa.decodeVerifyingKey encoded = some key := by
  unfold decodeMlDsaVerifyingKey
  cases P.mlDsa.decodeVerifyingKey encoded <;> simp

theorem collectVerifyingKeys_keysOf {validators : List ValidatorConfig}
    {identities : BTreeMap ValidatorId PublicIdentity} {keys keys' : BTreeMap ValidatorId VerifyingKey}
    (hkeys : KeysOf P identities keys) (h : collectVerifyingKeys P keys validators = .ok keys') :
    KeysOf P (validators.foldl (fun m v => m.insert v.validatorId v.publicIdentity) identities)
      keys' := by
  induction validators generalizing identities keys with
  | nil =>
    obtain rfl := Except.ok.inj h
    exact hkeys
  | cons validator rest ih =>
    unfold collectVerifyingKeys at h
    cases hbytes : validator.publicIdentity.mlDsaBytes with
    | none =>
      rw [hbytes] at h
      refine ih (fun v identity encoded hidentity hencoded => ?_) h
      rw [Std.ExtTreeMap.getElem?_insert] at hidentity
      split_ifs at hidentity
      · obtain rfl := Option.some.inj hidentity
        rw [hbytes] at hencoded
        cases hencoded
      · exact hkeys v identity encoded hidentity hencoded
    | some encodedKey =>
      rw [hbytes] at h
      obtain ⟨key, hkey, h⟩ := except_bind_ok.1 h
      refine ih (fun v identity encoded hidentity hencoded => ?_) h
      rw [Std.ExtTreeMap.getElem?_insert] at hidentity ⊢
      split_ifs at hidentity ⊢
      · obtain rfl := Option.some.inj hidentity
        obtain rfl := Option.some.inj (hbytes.symm.trans hencoded)
        exact ⟨key, decodeMlDsaVerifyingKey_ok.1 hkey, rfl⟩
      · exact hkeys v identity encoded hidentity hencoded

namespace ConfiguredCryptoBackend.BuiltFrom

variable {v : ValidatorId} {m : M} {identity : PublicIdentity} {bytes : List UInt8}

/-- The check of a development signature is a comparison with the hash under the secret of the
genesis. -/
theorem deterministic_ok (hC : C.BuiltFrom P genesis) :
    C.verifySingleSignatureComponent v m .devDeterministic bytes = .ok true ↔
      ∃ secret, (DeterministicCryptoBackend.secretMap genesis)[v]? = some secret ∧
        bytes = HashBytes.toVec (P.hashSecret secret m) := by
  simp only [verifySingleSignatureComponent, DeterministicCryptoBackend.verify,
    DeterministicCryptoBackend.sign, DeterministicCryptoBackend.secret, hC.deterministic,
    TypedSignature.single]
  cases (DeterministicCryptoBackend.secretMap genesis)[v]? with
  | none => simp [bind, Except.bind]
  | some secret => simp [bind, Except.bind, eq_comm]

/-- The check of an ML-DSA signature is one under the key in the validator's identity. -/
theorem mlDsa_ok (hC : C.BuiltFrom P genesis)
    (hidentity : (identityMap genesis)[v]? = some identity) {encoded : List UInt8}
    (hencoded : identity.mlDsaBytes = some encoded) :
    C.verifySingleSignatureComponent v m .mlDsa bytes = .ok true ↔
      ∃ key, P.mlDsa.decodeVerifyingKey encoded = some key ∧ P.mlDsa.verify key m bytes = true := by
  obtain ⟨keys, hkeys, hverify⟩ := hC.verifyingKeys
  have hkeysOf : KeysOf P (identityMap genesis) keys :=
    collectVerifyingKeys_keysOf (by simp [KeysOf]) hkeys
  obtain ⟨key, hdecode, hkey⟩ := hkeysOf v identity encoded hidentity hencoded
  simp [verifySingleSignatureComponent, hverify, hkey, hdecode]

end ConfiguredCryptoBackend.BuiltFrom

end

end Entangrid
