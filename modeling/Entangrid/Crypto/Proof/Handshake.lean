import Entangrid.Crypto.Proof.Encoding
import Entangrid.Node.Proof.Signing

/-!
# Agreement of a handshake

Two honest backends of one genesis, and an attacker who may replace the client hello on its way.

* `accept_fields`: what the responder accepts from an honest initiator is its hello up to the signature.
* `handshake_agreement_iff`: the two derive the same session exactly if the signature of the hello was not
  replaced by another; undisturbed, both derive one.
-/

namespace Entangrid

open ConfiguredCryptoBackend

section
variable {DecapsulationKey EncapsulationKey Ciphertext Randomness : Type}
variable {SigningKey VerifyingKey : Type}
variable {H : HandshakePrimitives DecapsulationKey EncapsulationKey Ciphertext Randomness}
variable {P : Primitives SigningKey VerifyingKey (List UInt8)} {genesis : GenesisConfig}
variable {A B C : ConfiguredCryptoBackend (List UInt8)} {a b v : ValidatorId}
variable {ch ch' : SessionClientHello} {sh : SessionServerHello} {mA mB : SessionMaterial}
variable {r : Randomness} {nonce : HashBytes}

/-! ## Honest backends -/

/-- A key pair under which every encapsulation is opened to the shared key. -/
def MlKem768.Genuine (K : MlKem768 DecapsulationKey EncapsulationKey Ciphertext Randomness)
    (keyFile : MlKemSessionKeyFile) : Prop :=
  ∃ decapsulationKey encapsulationKey,
    K.decodeDecapsulationKey keyFile.decapsulationKey = some decapsulationKey ∧
      K.decodeEncapsulationKey keyFile.encapsulationKey = some encapsulationKey ∧
      ∀ r, ∃ bytes sharedKey ciphertext, K.encapsulate encapsulationKey r = some (bytes, sharedKey) ∧
        K.decodeCiphertext bytes = some ciphertext ∧
        K.decapsulate decapsulationKey ciphertext = some sharedKey

/-- A backend built for a validator from a genesis that was read from a file, with genuine keys. -/
structure Honest (H : HandshakePrimitives DecapsulationKey EncapsulationKey Ciphertext Randomness)
    (P : Primitives SigningKey VerifyingKey (List UInt8)) (genesis : GenesisConfig)
    (C : ConfiguredCryptoBackend (List UInt8)) (v : ValidatorId) : Prop where
  built : ∃ files config, config.validatorId = v ∧ buildCryptoBackend P files genesis config = .ok C
  identities : ∀ x ∈ genesis.validators, ∀ i, x.sessionPublicIdentity = some i →
    SessionPublicIdentity.container.Built i
  keys : ∀ material, C.localSessionBackend = .hybridDeterministicMlKem768 material →
    H.mlKem.Genuine material.keyFile

/-- The messages a validator signs: its hellos, and hashes of blocks, votes, receipts and the like. -/
inductive Signs (H : HandshakePrimitives DecapsulationKey EncapsulationKey Ciphertext Randomness)
    (C : ConfiguredCryptoBackend (List UInt8)) (v : ValidatorId) : List UInt8 → Prop
  | clientHello {peer nonce ch} (hch : C.buildClientHello H v peer nonce = .ok ch) :
    Signs H C v (H.clientHelloSigningMessage ch)
  | serverHello {r ch sh m} (hsh : C.acceptClientHello H r v ch = .ok (sh, m)) :
    Signs H C v (H.serverHelloSigningMessage ch sh)
  | hash (hash : HashBytes) : Signs H C v (HashBytes.toVec hash)

theorem loadMlKemSessionMaterial_ok {files : KeyFiles} {validator : ValidatorConfig}
    {config : NodeConfig} {material : LoadedMlKemSessionMaterial}
    (h : loadMlKemSessionMaterial files validator config = .ok material) :
    validator.sessionPublicIdentity = some material.sessionPublicIdentity ∧
      expectedMlKem validator.validatorId material.sessionPublicIdentity =
        .ok material.keyFile.encapsulationKey ∧
      material.keyFile.encapsulationKey ≠ [] ∧
      ∃ keyPath, files.readMlKemSession keyPath = .ok material.keyFile := by
  unfold loadMlKemSessionMaterial at h
  cases hpath : config.sessionKeyPath with
  | none => simp [hpath] at h
  | some keyPath =>
    cases hidentity : validator.sessionPublicIdentity with
    | none => simp [hpath, hidentity] at h
    | some identity =>
      rw [hpath, hidentity] at h
      obtain ⟨keyFile, hfile, h⟩ := except_bind_ok.1 h
      split_ifs at h with hempty
      obtain ⟨expected, hexpected, h⟩ := except_bind_ok.1 h
      split_ifs at h with hmatches
      obtain rfl := Except.ok.inj h
      obtain rfl : expected = keyFile.encapsulationKey := not_not.1 hmatches
      simp only [Bool.or_eq_true, List.isEmpty_iff, not_or] at hempty
      exact ⟨rfl, hexpected, hempty.2, keyPath, hfile⟩

/-- What a hybrid session backend was loaded with. -/
theorem loadMlKemSessionMaterial_of_build {files : KeyFiles} {config : NodeConfig}
    (hbuild : buildCryptoBackend P files genesis config = .ok C)
    {material : LoadedMlKemSessionMaterial}
    (hbackend : C.localSessionBackend = .hybridDeterministicMlKem768 material) :
    ∃ validator ∈ genesis.validators,
      loadMlKemSessionMaterial files validator config = .ok material := by
  obtain ⟨validator, session, _, _, hvalidator, hsession, -, hconfigured⟩ :=
    buildCryptoBackend_ok hbuild
  obtain ⟨-, -, -, hlocal, -⟩ := configuredBackend_ok hconfigured
  rw [hlocal] at hbackend
  refine ⟨validator, (validatorConfig_ok hvalidator).1, ?_⟩
  unfold buildLocalSessionBackend at hsession
  cases hkind : config.sessionBackend <;> rw [hkind] at hsession
  · rw [hbackend] at hsession
    cases hsession
  · cases hload : loadMlKemSessionMaterial files validator config with
    | error text => simp [hload, Except.map] at hsession
    | ok loaded =>
      have heq : LocalSessionBackend.hybridDeterministicMlKem768 loaded = session := by
        simpa [hload, Except.map] using hsession
      rw [hbackend] at heq
      rw [LocalSessionBackend.hybridDeterministicMlKem768.inj heq]

theorem Honest.material (hC : Honest H P genesis C v) {material : LoadedMlKemSessionMaterial}
    (hbackend : C.localSessionBackend = .hybridDeterministicMlKem768 material) :
    SessionPublicIdentity.container.Built material.sessionPublicIdentity ∧
      (∃ id, expectedMlKem id material.sessionPublicIdentity =
        .ok material.keyFile.encapsulationKey) ∧
      material.keyFile.encapsulationKey ≠ [] := by
  obtain ⟨files, config, -, hbuild⟩ := hC.built
  obtain ⟨validator, hvalidator, hload⟩ := loadMlKemSessionMaterial_of_build hbuild hbackend
  obtain ⟨hidentity, hexpected, hne, -⟩ := loadMlKemSessionMaterial_ok hload
  exact ⟨hC.identities validator hvalidator _ hidentity, ⟨_, hexpected⟩, hne⟩

theorem wired_of_built {i : SessionPublicIdentity} (h : SessionPublicIdentity.container.Built i) :
    Container.Wired SessionPublicIdentity.kind (SessionPublicIdentity.container.toContainer i) :=
  ((ContainerType.built_iff SessionPublicIdentity.container_lawful).1 h).wired

theorem Honest.wired_localSessionIdentity (hC : Honest H P genesis C v) :
    Container.Wired SessionPublicIdentity.kind
      (SessionPublicIdentity.container.toContainer (C.localSessionIdentity v)) := by
  unfold ConfiguredCryptoBackend.localSessionIdentity
  cases hbackend : C.localSessionBackend with
  | deterministic =>
    exact wired_of_built (.single (by decide))
  | hybridDeterministicMlKem768 material => exact wired_of_built (hC.material hbackend).1

/-! ## The steps of a handshake -/

/-- The hello of an initiator, before it is signed. -/
def ConfiguredCryptoBackend.unsignedClientHello (C : ConfiguredCryptoBackend (List UInt8))
    (localValidatorId peerValidatorId : ValidatorId) (nonce : HashBytes) : SessionClientHello where
  initiatorValidatorId := localValidatorId
  responderValidatorId := peerValidatorId
  nonce
  sessionPublicIdentity := C.localSessionIdentity localValidatorId
  kemPublicMaterial :=
    match C.localSessionBackend with
    | .deterministic => []
    | .hybridDeterministicMlKem768 material => material.keyFile.encapsulationKey
  signature := {}

theorem buildClientHello_ok {peer : ValidatorId} :
    C.buildClientHello H v peer nonce = .ok ch ↔
      ch = { C.unsignedClientHello v peer nonce with signature := ch.signature } ∧
        C.sign v (H.clientHelloSigningMessage (C.unsignedClientHello v peer nonce)) =
          .ok ch.signature := by
  constructor
  · intro h
    obtain ⟨signature, hsign, h⟩ := except_bind_ok.1 h
    obtain rfl := Except.ok.inj h
    exact ⟨rfl, hsign⟩
  · rintro ⟨hch, hsign⟩
    refine except_bind_ok.2 ⟨ch.signature, hsign, ?_⟩
    rw [hch]
    rfl

theorem requireVerified_ok {m : List UInt8} {s : TypedSignature} {text : String} {u : Unit} :
    C.requireVerified v m s text = .ok u ↔ C.verify v m s = .ok true := by
  unfold requireVerified
  cases C.verify v m s with
  | error e => simp [bind, Except.bind]
  | ok verified => cases verified <;> simp [bind, Except.bind]

/-- What a responder has checked and answered. -/
structure Accepted (H : HandshakePrimitives DecapsulationKey EncapsulationKey Ciphertext Randomness)
    (C : ConfiguredCryptoBackend (List UInt8)) (r : Randomness) (v : ValidatorId)
    (ch : SessionClientHello) (sh : SessionServerHello) (m : SessionMaterial) : Prop where
  responder : ch.responderValidatorId = v
  verified : C.verify ch.initiatorValidatorId (H.clientHelloSigningMessage ch) ch.signature = .ok true
  session : ∃ kemComponent deterministicComponent,
    C.encapsulateFor H r ch = .ok (kemComponent, sh.kemCiphertext) ∧
      C.deterministicSessionComponent H v ch.initiatorValidatorId ch.nonce =
        .ok deterministicComponent ∧
      m = H.deriveSessionMaterial deterministicComponent kemComponent ch sh
        C.encryptFramesForLocalSessionBackend
  serverHello : sh.responderValidatorId = v ∧ sh.initiatorValidatorId = ch.initiatorValidatorId ∧
    sh.nonce = ch.nonce ∧ sh.sessionPublicIdentity = C.localSessionIdentity v
  signed : C.sign v (H.serverHelloSigningMessage ch sh) = .ok sh.signature

theorem acceptClientHello_ok : C.acceptClientHello H r v ch = .ok (sh, mB) ↔
    Accepted H C r v ch sh mB := by
  constructor
  · intro h
    unfold acceptClientHello at h
    split_ifs at h with hresponder
    obtain ⟨_, hverified, h⟩ := except_bind_ok.1 h
    obtain ⟨⟨kemComponent, kemCiphertext⟩, hkem, h⟩ := except_bind_ok.1 h
    obtain ⟨signature, hsign, h⟩ := except_bind_ok.1 h
    obtain ⟨deterministicComponent, hdeterministic, h⟩ := except_bind_ok.1 h
    obtain ⟨rfl, rfl⟩ := Prod.mk.inj (Except.ok.inj h)
    exact ⟨not_not.1 hresponder, requireVerified_ok.1 hverified,
      ⟨kemComponent, deterministicComponent, hkem, hdeterministic, rfl⟩, ⟨rfl, rfl, rfl, rfl⟩, hsign⟩
  · rintro ⟨hresponder, hverified, ⟨kemComponent, deterministicComponent, hkem, hdeterministic, rfl⟩,
      ⟨h₁, h₂, h₃, h₄⟩, hsign⟩
    obtain ⟨_, _, _, _, _, _⟩ := sh
    dsimp only at h₁ h₂ h₃ h₄
    subst h₄ h₃ h₂ h₁
    unfold acceptClientHello
    rw [if_neg (not_not_intro hresponder)]
    refine except_bind_ok.2 ⟨(), requireVerified_ok.2 hverified, ?_⟩
    refine except_bind_ok.2 ⟨_, hkem, ?_⟩
    refine except_bind_ok.2 ⟨_, hsign, ?_⟩
    exact except_bind_ok.2 ⟨_, hdeterministic, rfl⟩

/-- What an initiator has checked of the answer. -/
structure Finalized (H : HandshakePrimitives DecapsulationKey EncapsulationKey Ciphertext Randomness)
    (C : ConfiguredCryptoBackend (List UInt8)) (v : ValidatorId) (ch : SessionClientHello)
    (sh : SessionServerHello) (m : SessionMaterial) : Prop where
  initiator : ch.initiatorValidatorId = v
  serverHello : sh.initiatorValidatorId = v ∧
    sh.responderValidatorId = ch.responderValidatorId ∧ sh.nonce = ch.nonce
  verified : C.verify sh.responderValidatorId (H.serverHelloSigningMessage ch sh) sh.signature =
    .ok true
  session : ∃ kemComponent deterministicComponent,
    C.decapsulateFrom H sh = .ok kemComponent ∧
      C.deterministicSessionComponent H v sh.responderValidatorId ch.nonce =
        .ok deterministicComponent ∧
      m = H.deriveSessionMaterial deterministicComponent kemComponent ch sh
        C.encryptFramesForLocalSessionBackend

theorem finalizeClientSession_ok : C.finalizeClientSession H v ch sh = .ok mA ↔
    Finalized H C v ch sh mA := by
  constructor
  · intro h
    unfold finalizeClientSession at h
    split_ifs at h with hinitiator hserver
    obtain ⟨_, hverified, h⟩ := except_bind_ok.1 h
    obtain ⟨kemComponent, hkem, h⟩ := except_bind_ok.1 h
    obtain ⟨deterministicComponent, hdeterministic, h⟩ := except_bind_ok.1 h
    obtain rfl := Except.ok.inj h
    simp only [not_or, not_not] at hserver
    exact ⟨not_not.1 hinitiator, hserver, requireVerified_ok.1 hverified,
      ⟨kemComponent, deterministicComponent, hkem, hdeterministic, rfl⟩⟩
  · rintro ⟨hinitiator, hserver, hverified, ⟨kemComponent, deterministicComponent, hkem,
      hdeterministic, rfl⟩⟩
    unfold finalizeClientSession
    rw [if_neg (not_not_intro hinitiator), if_neg (by simpa only [not_or, not_not] using hserver)]
    refine except_bind_ok.2 ⟨(), requireVerified_ok.2 hverified, ?_⟩
    refine except_bind_ok.2 ⟨_, hkem, ?_⟩
    exact except_bind_ok.2 ⟨_, hdeterministic, rfl⟩

/-! ## The parts of a session key -/

/-- The deterministic session of two validators is the same from both ends. -/
theorem openSession_comm {D : DeterministicCryptoBackend (List UInt8)}
    (h : D.openSession H a b nonce = .ok mA) : D.openSession H b a nonce = .ok mA := by
  obtain ⟨secretA, hsecretA, h⟩ := except_bind_ok.1 h
  obtain ⟨secretB, hsecretB, h⟩ := except_bind_ok.1 h
  refine except_bind_ok.2 ⟨secretB, hsecretB, except_bind_ok.2 ⟨secretA, hsecretA, ?_⟩⟩
  rw [← h]
  rcases Nat.lt_trichotomy a b with hlt | rfl | hlt
  · simp [hlt.le, hlt.not_ge]
  · obtain rfl := Except.ok.inj (hsecretA.symm.trans hsecretB)
    rfl
  · simp [hlt.le, hlt.not_ge]

theorem deterministicSessionComponent_eq (hdeterministic : A.deterministic = B.deterministic)
    {componentA componentB : HashBytes}
    (hcomponentA : A.deterministicSessionComponent H a b nonce = .ok componentA)
    (hcomponentB : B.deterministicSessionComponent H b a nonce = .ok componentB) :
    componentA = componentB := by
  obtain ⟨session, hsession, h⟩ := except_bind_ok.1 hcomponentA
  obtain ⟨session', hsession', h'⟩ := except_bind_ok.1 hcomponentB
  have hcomm := openSession_comm hsession
  rw [hdeterministic, hsession'] at hcomm
  obtain rfl := Except.ok.inj hcomm
  exact Except.ok.inj (h.symm.trans h')

/-- Both ends have a session backend of the same kind, or the hello is not accepted; and they share the
key that the responder encapsulated. -/
theorem kemComponent_eq (hA : Honest H P genesis A a)
    (hmaterial : ch.kemPublicMaterial = (A.unsignedClientHello a b nonce).kemPublicMaterial)
    (hidentity : ch.sessionPublicIdentity = A.localSessionIdentity a)
    {kemComponent kemComponent' : List UInt8}
    (hencapsulate : B.encapsulateFor H r ch = .ok (kemComponent', sh.kemCiphertext))
    (hdecapsulate : A.decapsulateFrom H sh = .ok kemComponent) :
    kemComponent = kemComponent' ∧
      A.encryptFramesForLocalSessionBackend = B.encryptFramesForLocalSessionBackend := by
  unfold ConfiguredCryptoBackend.localSessionIdentity at hidentity
  unfold ConfiguredCryptoBackend.unsignedClientHello at hmaterial
  unfold encapsulateFor at hencapsulate
  unfold decapsulateFrom at hdecapsulate
  unfold encryptFramesForLocalSessionBackend
  cases hbackendA : A.localSessionBackend with
  | deterministic =>
    simp only [hbackendA] at hidentity hmaterial hdecapsulate ⊢
    split_ifs at hdecapsulate
    cases hbackendB : B.localSessionBackend with
    | deterministic =>
      simp only [hbackendB] at hencapsulate
      split_ifs at hencapsulate
      obtain ⟨hkem, -⟩ := Prod.mk.inj (Except.ok.inj hencapsulate)
      exact ⟨(Except.ok.inj hdecapsulate).symm.trans hkem, rfl⟩
    | hybridDeterministicMlKem768 material =>
      simp only [hbackendB] at hencapsulate
      obtain ⟨_, -, hencapsulate⟩ := except_bind_ok.1 hencapsulate
      obtain ⟨expected, hexpected, -⟩ := except_bind_ok.1 hencapsulate
      rw [hidentity] at hexpected
      cases hexpected
  | hybridDeterministicMlKem768 material =>
    simp only [hbackendA] at hidentity hmaterial hdecapsulate ⊢
    obtain ⟨-, -, hne⟩ := hA.material hbackendA
    cases hbackendB : B.localSessionBackend with
    | deterministic =>
      simp only [hbackendB, hmaterial] at hencapsulate
      rw [if_pos (by simpa using hne)] at hencapsulate
      cases hencapsulate
    | hybridDeterministicMlKem768 materialB =>
      simp only [hbackendB] at hencapsulate
      obtain ⟨_, -, hencapsulate⟩ := except_bind_ok.1 hencapsulate
      obtain ⟨expected, -, hencapsulate⟩ := except_bind_ok.1 hencapsulate
      obtain ⟨_, -, hdecapsulate⟩ := except_bind_ok.1 hdecapsulate
      obtain ⟨dk, ek, hdk, hek, hgenuine⟩ := hA.keys material hbackendA
      obtain ⟨bytes, sharedKey, ciphertext, hshared, hciphertext, hopened⟩ := hgenuine r
      split_ifs at hencapsulate
      rw [hmaterial, hek] at hencapsulate
      simp only [hshared] at hencapsulate
      obtain ⟨rfl, hbytes⟩ := Prod.mk.inj (Except.ok.inj hencapsulate)
      rw [hdk] at hdecapsulate
      simp only [← hbytes, hciphertext, hopened] at hdecapsulate
      exact ⟨(Except.ok.inj hdecapsulate).symm, rfl⟩

/-! ## Agreement -/

theorem Honest.builtFrom (hC : Honest H P genesis C v) : C.BuiltFrom P genesis := by
  obtain ⟨_, _, -, hbuild⟩ := hC.built
  exact builtFrom_of_build hbuild

/-- A backend signs with one scheme or with two components. -/
theorem wired_of_sign {m : List UInt8} {s : TypedSignature} (hdeterministic : C.sign v m = .ok s) :
    Container.Wired TypedSignature.container.toContainerKind
      (TypedSignature.container.toContainer s) := by
  unfold ConfiguredCryptoBackend.sign at hdeterministic
  split at hdeterministic
  · obtain ⟨secret, -, h⟩ := except_bind_ok.1 hdeterministic
    obtain rfl := Except.ok.inj h
    rfl
  · split_ifs at hdeterministic
    obtain rfl := Except.ok.inj hdeterministic
    rfl
  · split_ifs at hdeterministic
    obtain ⟨signature, -, h⟩ := except_bind_ok.1 hdeterministic
    split at h
    · cases h
    · obtain rfl := Except.ok.inj h
      rfl

theorem wired_of_buildClientHello {peer : ValidatorId} (hC : Honest H P genesis C v)
    (hch : C.buildClientHello H v peer nonce = .ok ch) : ch.Wired := by
  obtain ⟨heq, hsign⟩ := buildClientHello_ok.1 hch
  refine ⟨?_, wired_of_sign hsign⟩
  rw [heq]
  exact hC.wired_localSessionIdentity

/-- A hello whose containers were read from the wire. -/
theorem SessionClientHello.Wired.of_decoded {input rest input' rest' : List UInt8}
    (hidentity : SessionPublicIdentity.container.deserializeBinary H.sessionBincode input =
      .ok (ch.sessionPublicIdentity, rest))
    (hsignature : TypedSignature.container.deserializeBinary H.signatureBincode input' =
      .ok (ch.signature, rest')) : ch.Wired := by
  constructor
  · obtain ⟨⟨c, _⟩, hc, h⟩ := except_bind_ok.1 hidentity
    obtain ⟨hof, -⟩ := Prod.mk.inj (Except.ok.inj h)
    rw [← hof, SessionPublicIdentity.container_lawful.to_of]
    exact (Container.Shaped.of_deserializeBinary hc).wired
  · obtain ⟨⟨c, _⟩, hc, h⟩ := except_bind_ok.1 hsignature
    obtain ⟨hof, -⟩ := Prod.mk.inj (Except.ok.inj h)
    rw [← hof, TypedSignature.container_lawful.to_of]
    exact Container.Wired.of_buildUnchecked hc

/-- **What is accepted from an honest initiator** is the hello it sent, up to the signature: it signs no
other one for the same responder and nonce. -/
theorem accept_fields (hH : H.Lawful) (hA : Honest H P genesis A a)
    (hch : A.buildClientHello H a b nonce = .ok ch) (hwired : ch'.Wired)
    (hunforged : B.verify a (H.clientHelloSigningMessage ch') ch'.signature = .ok true →
      Signs H A a (H.clientHelloSigningMessage ch'))
    (haccept : Accepted H B r b ch' sh mB) (hfinalize : Finalized H A a ch sh mA) :
    ch' = { ch with signature := ch'.signature } := by
  have hinitiator : ch'.initiatorValidatorId = a :=
    haccept.serverHello.2.1.symm.trans hfinalize.serverHello.1
  have hverified := haccept.verified
  rw [hinitiator] at hverified
  have hnonce : ch'.nonce = ch.nonce :=
    haccept.serverHello.2.2.1.symm.trans hfinalize.serverHello.2.2
  generalize hm : H.clientHelloSigningMessage ch' = m at hunforged hverified
  cases hunforged hverified with
  | @clientHello peer nonce' ch₀ hch₀ =>
    have hfields := HandshakePrimitives.clientHelloSigningMessage_inj hH
      (wired_of_buildClientHello hA hch₀).identity hwired.identity hm.symm
    obtain ⟨heq₀, -⟩ := buildClientHello_ok.1 hch₀
    obtain ⟨heq, -⟩ := buildClientHello_ok.1 hch
    have hpeer : peer = b := by
      have hresponder := haccept.responder
      rw [hfields, heq₀] at hresponder
      exact hresponder
    have hnonce' : nonce' = nonce := by
      rw [hfields, heq₀, heq] at hnonce
      exact hnonce
    rw [hfields, heq₀, heq, hpeer, hnonce']
  | serverHello hsh => exact absurd hm (HandshakePrimitives.clientHello_ne_serverHello hH)
  | hash hash => exact absurd hm (HandshakePrimitives.clientHello_ne_hash hash)

/-- The two sessions are derived from the same parts; only the client hellos may differ. -/
theorem sessions_eq (hA : Honest H P genesis A a) (hB : Honest H P genesis B b)
    (hch : A.buildClientHello H a b nonce = .ok ch)
    (hfields : ch' = { ch with signature := ch'.signature })
    (haccept : Accepted H B r b ch' sh mB) (hfinalize : Finalized H A a ch sh mA) :
    ∃ deterministicComponent kemComponent encryptFrames,
      mA = H.deriveSessionMaterial deterministicComponent kemComponent ch sh encryptFrames ∧
        mB = H.deriveSessionMaterial deterministicComponent kemComponent ch' sh encryptFrames := by
  obtain ⟨heq, -⟩ := buildClientHello_ok.1 hch
  obtain ⟨kemComponent', deterministicComponent', hencapsulate, hdeterministic', rfl⟩ :=
    haccept.session
  obtain ⟨kemComponent, deterministicComponent, hdecapsulate, hdeterministic, rfl⟩ :=
    hfinalize.session
  have hmaterial : ch'.kemPublicMaterial = (A.unsignedClientHello a b nonce).kemPublicMaterial := by
    rw [hfields, heq]
  have hidentity : ch'.sessionPublicIdentity = A.localSessionIdentity a := by
    rw [hfields, heq]
    rfl
  obtain ⟨hkem, hencrypt⟩ := kemComponent_eq hA hmaterial hidentity hencapsulate hdecapsulate
  have hsame : A.deterministic = B.deterministic := by
    rw [hA.builtFrom.deterministic, hB.builtFrom.deterministic]
  have hinitiator : ch'.initiatorValidatorId = a :=
    haccept.serverHello.2.1.symm.trans hfinalize.serverHello.1
  have hnonce : ch'.nonce = ch.nonce :=
    haccept.serverHello.2.2.1.symm.trans hfinalize.serverHello.2.2
  rw [haccept.serverHello.1] at hdeterministic
  rw [hinitiator, hnonce] at hdeterministic'
  have hcomponent := deterministicSessionComponent_eq hsame hdeterministic hdeterministic'
  exact ⟨deterministicComponent, kemComponent, _, rfl, by rw [hcomponent, hkem, hencrypt]⟩

/-! ## An undisturbed handshake -/

/-- The genesis entry that peers compare a validator's session identity with is its own. -/
def SessionIdentityKept (genesis : GenesisConfig) (C : ConfiguredCryptoBackend (List UInt8))
    (v : ValidatorId) : Prop :=
  ∀ i, (buildSessionIdentityMap genesis)[v]? = some (some i) → i = C.localSessionIdentity v

theorem Honest.exists_secret (hC : Honest H P genesis C v) :
    (∃ secret, (DeterministicCryptoBackend.secretMap genesis)[v]? = some secret) ∧
      ∃ identity, (buildSessionIdentityMap genesis)[v]? = some identity := by
  obtain ⟨_, config, rfl, hbuild⟩ := hC.built
  obtain ⟨_, _, _, _, hvalidator, -⟩ := buildCryptoBackend_ok hbuild
  obtain ⟨hsecret, -, hidentity⟩ := exists_of_validatorConfig hvalidator
  exact ⟨hsecret, hidentity⟩

theorem exists_deterministicSessionComponent (hA : Honest H P genesis A a)
    (hB : Honest H P genesis B b) (nonce : HashBytes) :
    ∃ component, A.deterministicSessionComponent H a b nonce = .ok component := by
  obtain ⟨⟨secretA, hsecretA⟩, -⟩ := hA.exists_secret
  obtain ⟨⟨secretB, hsecretB⟩, -⟩ := hB.exists_secret
  have hget : ∀ {v : ValidatorId} {secret : String},
      (DeterministicCryptoBackend.secretMap genesis)[v]? = some secret →
        A.deterministic.secret v = .ok secret := by
    intro v secret hsecret
    simp [DeterministicCryptoBackend.secret, hA.builtFrom.deterministic, hsecret]
  have hopen : ∃ session, A.deterministic.openSession H a b nonce = .ok session := by
    unfold DeterministicCryptoBackend.openSession
    rw [hget hsecretA, hget hsecretB]
    exact ⟨_, rfl⟩
  obtain ⟨session, hsession⟩ := hopen
  exact ⟨session.sessionKey, except_bind_ok.2 ⟨session, hsession, rfl⟩⟩

theorem verifyExpectedSessionIdentity_ok (hA : Honest H P genesis A a) (hB : Honest H P genesis B b)
    (hkept : SessionIdentityKept genesis A a) :
    B.verifyExpectedSessionIdentity a (A.localSessionIdentity a) = .ok () := by
  obtain ⟨-, identity, hidentity⟩ := hA.exists_secret
  unfold verifyExpectedSessionIdentity
  rw [hB.builtFrom.sessionIdentities, hidentity]
  cases identity with
  | none => rfl
  | some expected =>
    rw [hkept expected hidentity]
    simp

theorem expectedMlKem_id {id id' : ValidatorId} {identity : SessionPublicIdentity}
    {key : List UInt8} (h : expectedMlKem id identity = .ok key) :
    expectedMlKem id' identity = .ok key := by
  unfold expectedMlKem at h ⊢
  cases hscheme : identity.scheme <;> simp only [hscheme] at h ⊢
  · cases h
  · cases hbytes : identity.asSingleBytes <;> simp only [hbytes] at h ⊢
    · cases h
    · exact h
  · cases hbytes : identity.componentBytes .mlKem <;> simp only [hbytes] at h ⊢
    · cases h
    · exact h

/-- Two session backends of one kind share a key. -/
theorem exists_kemComponent (hA : Honest H P genesis A a) (hB : Honest H P genesis B b)
    (hkind : A.encryptFramesForLocalSessionBackend = B.encryptFramesForLocalSessionBackend)
    (hkeptA : A.encryptFramesForLocalSessionBackend → SessionIdentityKept genesis A a)
    (hkeptB : B.encryptFramesForLocalSessionBackend → SessionIdentityKept genesis B b)
    (hch : ch = { A.unsignedClientHello a b nonce with signature := ch.signature })
    (r : Randomness) :
    ∃ kemComponent kemCiphertext,
      B.encapsulateFor H r ch = .ok (kemComponent, kemCiphertext) ∧
        ∀ sh : SessionServerHello, sh.responderValidatorId = b →
          sh.sessionPublicIdentity = B.localSessionIdentity b → sh.kemCiphertext = kemCiphertext →
          A.decapsulateFrom H sh = .ok kemComponent := by
  unfold encapsulateFor decapsulateFrom
  unfold encryptFramesForLocalSessionBackend at hkind hkeptA hkeptB
  have hidentity : ch.sessionPublicIdentity = A.localSessionIdentity a := by
    rw [hch]
    rfl
  have hinitiator : ch.initiatorValidatorId = a := by
    rw [hch]
    rfl
  have hmaterial : ch.kemPublicMaterial = (A.unsignedClientHello a b nonce).kemPublicMaterial := by
    rw [hch]
  cases hbackendA : A.localSessionBackend with
  | deterministic =>
    cases hbackendB : B.localSessionBackend with
    | hybridDeterministicMlKem768 material => simp [hbackendA, hbackendB] at hkind
    | deterministic =>
      simp only [unsignedClientHello, localSessionIdentity, hbackendA, hbackendB] at hmaterial hidentity ⊢
      refine ⟨[], [], by simp [hmaterial, hidentity, hinitiator], fun sh hsh hshIdentity hct => ?_⟩
      simp [hct, hsh, hshIdentity]
  | hybridDeterministicMlKem768 material =>
    cases hbackendB : B.localSessionBackend with
    | deterministic => simp [hbackendA, hbackendB] at hkind
    | hybridDeterministicMlKem768 materialB =>
      obtain ⟨-, ⟨id, hexpected⟩, -⟩ := hA.material hbackendA
      obtain ⟨dk, ek, hdk, hek, hgenuine⟩ := hA.keys material hbackendA
      obtain ⟨bytes, sharedKey, ciphertext, hshared, hciphertext, hopened⟩ := hgenuine r
      have hverifyA := verifyExpectedSessionIdentity_ok hA hB (hkeptA (by rw [hbackendA]))
      have hverifyB := verifyExpectedSessionIdentity_ok hB hA (hkeptB (by rw [hbackendB]))
      refine ⟨sharedKey, bytes, ?_, fun sh hsh hshIdentity hct => ?_⟩
      · simp only
        rw [hinitiator, hidentity]
        refine except_bind_ok.2 ⟨_, hverifyA, except_bind_ok.2 ⟨material.keyFile.encapsulationKey, ?_, ?_⟩⟩
        · simp only [localSessionIdentity, hbackendA]
          exact expectedMlKem_id hexpected
        · simp [hmaterial, unsignedClientHello, hbackendA, hek, hshared]
      · simp only
        rw [hsh, hshIdentity]
        exact except_bind_ok.2 ⟨_, hverifyB, by simp [hdk, hct, hciphertext, hopened]⟩

/-- **Agreement of a handshake.** When both ends of a handshake complete, the attacker in between may have
replaced the signature of the client hello, and nothing else of it; the sessions are the same exactly if
it did not, by the collision-freeness of the transcript hash. Undisturbed, a handshake of two backends of
one kind completes, if what each signs verifies at the other. -/
theorem handshake_agreement_iff (hH : H.Lawful) (hA : Honest H P genesis A a)
    (hB : Honest H P genesis B b) :
    (∀ nonce r ch ch' sh mA mB, A.buildClientHello H a b nonce = .ok ch → ch'.Wired →
      (B.verify a (H.clientHelloSigningMessage ch') ch'.signature = .ok true →
        Signs H A a (H.clientHelloSigningMessage ch')) →
      B.acceptClientHello H r b ch' = .ok (sh, mB) →
      A.finalizeClientSession H a ch sh = .ok mA →
      (ch'.signature = ch.signature → mA = mB) ∧
        ((H.sessionTranscriptHash ch sh = H.sessionTranscriptHash ch' sh →
            H.sessionTranscript ch sh = H.sessionTranscript ch' sh) →
          mA = mB → ch'.signature = ch.signature)) ∧
    (A.encryptFramesForLocalSessionBackend = B.encryptFramesForLocalSessionBackend →
      (A.encryptFramesForLocalSessionBackend → SessionIdentityKept genesis A a) →
      (B.encryptFramesForLocalSessionBackend → SessionIdentityKept genesis B b) →
      (∀ m, ∃ s, A.sign a m = .ok s ∧ B.verify a m s = .ok true) →
      (∀ m, ∃ s, B.sign b m = .ok s ∧ A.verify b m s = .ok true) →
      ∀ nonce r, ∃ ch sh m, A.buildClientHello H a b nonce = .ok ch ∧
        B.acceptClientHello H r b ch = .ok (sh, m) ∧ A.finalizeClientSession H a ch sh = .ok m) := by
  constructor
  · intro nonce r ch ch' sh mA mB hch hwired hunforged haccept hfinalize
    rw [acceptClientHello_ok] at haccept
    rw [finalizeClientSession_ok] at hfinalize
    have hfields := accept_fields hH hA hch hwired hunforged haccept hfinalize
    obtain ⟨deterministicComponent, kemComponent, encryptFrames, rfl, rfl⟩ :=
      sessions_eq hA hB hch hfields haccept hfinalize
    constructor
    · intro hsignature
      rw [hsignature] at hfields
      rw [hfields]
    · intro hcollision heq
      have htranscript := hcollision (congrArg SessionMaterial.transcriptHash heq)
      rw [← HandshakePrimitives.sessionTranscript_inj hH (wired_of_buildClientHello hA hch) hwired
        htranscript]
  · intro hkind hkeptA hkeptB hsignsA hsignsB nonce r
    obtain ⟨s, hsign, hverify⟩ :=
      hsignsA (H.clientHelloSigningMessage (A.unsignedClientHello a b nonce))
    let ch : SessionClientHello := { A.unsignedClientHello a b nonce with signature := s }
    have hch : ch = { A.unsignedClientHello a b nonce with signature := ch.signature } := rfl
    obtain ⟨kemComponent, kemCiphertext, hencapsulate, hdecapsulate⟩ :=
      exists_kemComponent hA hB hkind hkeptA hkeptB hch r
    let unsigned : SessionServerHello :=
      { responderValidatorId := b
        initiatorValidatorId := a
        nonce
        sessionPublicIdentity := B.localSessionIdentity b
        kemCiphertext
        signature := {} }
    obtain ⟨t, hsignB, hverifyB⟩ := hsignsB (H.serverHelloSigningMessage ch unsigned)
    obtain ⟨component, hcomponent⟩ := exists_deterministicSessionComponent hA hB nonce
    obtain ⟨component', hcomponent'⟩ := exists_deterministicSessionComponent hB hA nonce
    have haccept : Accepted H B r b ch { unsigned with signature := t }
        (H.deriveSessionMaterial component' kemComponent ch { unsigned with signature := t }
          B.encryptFramesForLocalSessionBackend) :=
      ⟨rfl, hverify, ⟨kemComponent, component', hencapsulate, hcomponent', rfl⟩,
        ⟨rfl, rfl, rfl, rfl⟩, hsignB⟩
    have hsame : A.deterministic = B.deterministic := by
      rw [hA.builtFrom.deterministic, hB.builtFrom.deterministic]
    have hfinalize : Finalized H A a ch { unsigned with signature := t }
        (H.deriveSessionMaterial component kemComponent ch { unsigned with signature := t }
          A.encryptFramesForLocalSessionBackend) :=
      ⟨rfl, ⟨rfl, rfl, rfl⟩, hverifyB,
        ⟨kemComponent, component, hdecapsulate _ rfl rfl rfl, hcomponent, rfl⟩⟩
    rw [← deterministicSessionComponent_eq hsame hcomponent hcomponent', ← hkind] at haccept
    exact ⟨ch, _, _, buildClientHello_ok.2 ⟨rfl, hsign⟩, acceptClientHello_ok.2 haccept,
      finalizeClientSession_ok.2 hfinalize⟩

end

/-! ## A handshake that evaluates -/

/-- Stand-ins for `blake3` and ML-KEM: a key encapsulates by appending the randomness to itself. -/
def sampleHandshake : HandshakePrimitives (List UInt8) (List UInt8) (List UInt8) UInt8 where
  blake3 bytes := rollingHash (18 :: Encode.bytes bytes)
  integer := sampleLength
  sessionKeyScheme :=
    { encode s := match s with
        | .devDeterministic => [0] | .mlKem => [1] | .hybrid => [2]
      decode
        | 0 :: rest => .ok (.devDeterministic, rest)
        | 1 :: rest => .ok (.mlKem, rest)
        | 2 :: rest => .ok (.hybrid, rest)
        | _ => .error (.format "unexpected variant") }
  signatureScheme := sampleSignatureBincode.variant
  mlKem :=
    { decodeDecapsulationKey := some
      decodeEncapsulationKey := some
      decodeCiphertext := some
      encapsulate := fun key r => some ([r], key ++ [r])
      decapsulate := fun key ciphertext => some (key ++ ciphertext) }

theorem sampleHandshake_lawful : sampleHandshake.Lawful where
  integer := sampleLength_lawful
  sessionKeyScheme := ⟨fun s _ => by cases s <;> rfl⟩
  signatureScheme := sampleSignatureBincode_lawful.variant

/-- The first validator signs with both of its keys, the second with its secret; both have ML-KEM keys. -/
def handshakeGenesis : GenesisConfig :=
  { sampleGenesis with
    validators :=
      [{ validatorId := 1, devSecret := "secret-1", publicIdentity := sampleIdentity []
         sessionPublicIdentity := some (.single .mlKem [5, 1]) },
        { validatorId := 2, devSecret := "secret-2"
          sessionPublicIdentity := some (.single .mlKem [5, 2]) }] }

def handshakeConfig (validatorId : ValidatorId) : NodeConfig :=
  { (sampleEnv validatorId).config with
    signingBackend :=
      if validatorId = 1 then .hybridDeterministicMlDsaExperimental else .devDeterministic
    signingKeyPath := some "ml-dsa-1.json"
    sessionBackend := .hybridDeterministicMlKemExperimental
    sessionKeyPath := some "ml-kem.json" }

def handshakeFiles (validatorId : ValidatorId) : KeyFiles :=
  { sampleKeyFiles with
    readMlKemSession := fun _ =>
      .ok { decapsulationKey := [5, UInt8.ofNat validatorId]
            encapsulationKey := [5, UInt8.ofNat validatorId] } }

def handshakeBackend (validatorId : ValidatorId) :
    Except String (ConfiguredCryptoBackend (List UInt8)) :=
  buildCryptoBackend samplePrimitives (handshakeFiles validatorId) handshakeGenesis
    (handshakeConfig validatorId)

theorem handshakeBackend_honest {validatorId : ValidatorId}
    {C : ConfiguredCryptoBackend (List UInt8)} (hC : handshakeBackend validatorId = .ok C) :
    Honest sampleHandshake samplePrimitives handshakeGenesis C validatorId where
  built := ⟨_, _, rfl, hC⟩
  identities x hx i hi := by
    have hsingle : ∃ bytes, i = SessionPublicIdentity.single .mlKem bytes := by
      simp only [handshakeGenesis, List.mem_cons, List.not_mem_nil, or_false] at hx
      obtain rfl | rfl := hx <;> exact ⟨_, (Option.some.inj hi).symm⟩
    obtain ⟨bytes, rfl⟩ := hsingle
    exact .single (by decide)
  keys material hmaterial := by
    obtain ⟨validator, -, hload⟩ := loadMlKemSessionMaterial_of_build hC hmaterial
    obtain ⟨-, -, -, keyPath, hfile⟩ := loadMlKemSessionMaterial_ok hload
    rw [← Except.ok.inj hfile]
    exact ⟨_, _, rfl, rfl, fun r => ⟨_, _, _, rfl, rfl, rfl⟩⟩

/-- A handshake whose client hello arrives with a signature made of its own. -/
def handshakeRun (replace : TypedSignature → TypedSignature) :
    Except String (SessionMaterial × SessionMaterial) := do
  let A ← handshakeBackend 1
  let B ← handshakeBackend 2
  let ch ← A.buildClientHello sampleHandshake 1 2 7
  let (sh, mB) ← B.acceptClientHello sampleHandshake 9 2 { ch with signature := replace ch.signature }
  let mA ← A.finalizeClientSession sampleHandshake 1 ch sh
  .ok (mA, mB)

/-- A client hello as its containers are read from their encodings. -/
def overTheWire (ch : SessionClientHello) : Except DecodeError SessionClientHello := do
  let H := sampleHandshake
  let (sessionPublicIdentity, _) ← SessionPublicIdentity.container.deserializeBinary H.sessionBincode
    (SessionPublicIdentity.container.serializeBinary H.sessionBincode ch.sessionPublicIdentity)
  let (signature, _) ← TypedSignature.container.deserializeBinary H.signatureBincode
    (TypedSignature.container.serializeBinary H.signatureBincode ch.signature)
  .ok { ch with sessionPublicIdentity, signature }

theorem wired_of_overTheWire {ch ch' : SessionClientHello} (h : overTheWire ch = .ok ch') :
    ch'.Wired := by
  obtain ⟨⟨identity, _⟩, hidentity, h⟩ := except_bind_ok.1 h
  obtain ⟨⟨signature, _⟩, hsignature, h⟩ := except_bind_ok.1 h
  obtain rfl := Except.ok.inj h
  exact .of_decoded (H := sampleHandshake) hidentity hsignature

/-- The signature of the deterministic component alone. -/
def strippedSignature (s : TypedSignature) : TypedSignature :=
  .single .devDeterministic ((s.componentBytes .devDeterministic).getD [])

/-- Each of the two signs with the keys that its genesis entry names. -/
theorem handshake_suitsBackend {validatorId : ValidatorId} (h : validatorId ∈ [1, 2]) :
    ∃ identity, (identityMap handshakeGenesis)[validatorId]? = some identity ∧
      SuitsBackend samplePrimitives (handshakeFiles validatorId) id (handshakeConfig validatorId)
        identity := by
  have hids : (handshakeGenesis.validators.map (·.validatorId)).Nodup := by
    decide
  simp only [List.mem_cons, List.not_mem_nil, or_false] at h
  obtain rfl | rfl := h
  · refine ⟨sampleIdentity [], Std.ExtTreeMap.getElem?_foldl_insert_of_nodup hids List.mem_cons_self, ?_⟩
    exact ⟨rfl, rfl, by simp [sampleIdentity], fun _ => ⟨[7, 1], [7, 1], rfl, rfl, rfl⟩⟩
  · exact ⟨{}, Std.ExtTreeMap.getElem?_foldl_insert_of_nodup hids
      (List.mem_cons_of_mem _ List.mem_cons_self), .inl rfl⟩

theorem handshakeBackend_signs {v w : ValidatorId} (hv : v ∈ [1, 2])
    {C D : ConfiguredCryptoBackend (List UInt8)} (hC : handshakeBackend v = .ok C)
    (hD : handshakeBackend w = .ok D) (m : List UInt8) :
    ∃ s, C.sign v m = .ok s ∧ D.verify v m s = .ok true := by
  obtain ⟨identity, hidentity, hsuits⟩ := handshake_suitsBackend hv
  have hcorrect : ∀ sk m, samplePrimitives.mlDsa.verify (id sk) m (samplePrimitives.mlDsa.sign sk m) =
      true := by
    simp [samplePrimitives]
  obtain ⟨s, hsign, hverify⟩ := hsuits.signsVerifiably hcorrect hC hidentity m
  exact ⟨s, hsign, hverify _ _ _ hD⟩

/-- Both have the ML-KEM keys of their genesis entries. -/
theorem handshake_sessions {v : ValidatorId} (hv : v ∈ [1, 2])
    {C : ConfiguredCryptoBackend (List UInt8)} (hC : handshakeBackend v = .ok C) :
    C.encryptFramesForLocalSessionBackend = true ∧ SessionIdentityKept handshakeGenesis C v := by
  have hvalues : ∀ v ∈ [1, 2], (handshakeBackend v).toOption.map (fun C =>
      (C.encryptFramesForLocalSessionBackend, some (some (C.localSessionIdentity v)))) =
        some (true, (buildSessionIdentityMap handshakeGenesis)[v]?) := by
    decide +kernel
  have hvalue := hvalues v hv
  rw [hC] at hvalue
  obtain ⟨hencrypts, hidentity⟩ := Prod.mk.inj (Option.some.inj hvalue)
  refine ⟨hencrypts, fun i hi => ?_⟩
  rw [hi] at hidentity
  exact (Option.some.inj (Option.some.inj hidentity)).symm

/-- Undisturbed, a handshake of the two ends in one session, whatever the nonce and the randomness. -/
theorem undisturbed_handshake_agrees : ∃ A B,
    handshakeBackend 1 = .ok A ∧ handshakeBackend 2 = .ok B ∧
      (∃ ch sh mA mB, A.buildClientHello sampleHandshake 1 2 7 = .ok ch ∧
        B.acceptClientHello sampleHandshake 9 2 ch = .ok (sh, mB) ∧
        A.finalizeClientSession sampleHandshake 1 ch sh = .ok mA ∧ mA = mB) ∧
      ∀ nonce r, ∃ ch sh m, A.buildClientHello sampleHandshake 1 2 nonce = .ok ch ∧
        B.acceptClientHello sampleHandshake r 2 ch = .ok (sh, m) ∧
        A.finalizeClientSession sampleHandshake 1 ch sh = .ok m := by
  have hrun : (handshakeRun id).isOk = true := by decide +kernel
  cases hresult : handshakeRun id with
  | error text => simp [hresult, Except.isOk, Except.toBool] at hrun
  | ok sessions =>
    obtain ⟨A, hA, h⟩ := except_bind_ok.1 hresult
    obtain ⟨B, hB, h⟩ := except_bind_ok.1 h
    obtain ⟨ch, hch, h⟩ := except_bind_ok.1 h
    obtain ⟨⟨sh, mB⟩, haccept, h⟩ := except_bind_ok.1 h
    obtain ⟨mA, hfinalize, -⟩ := except_bind_ok.1 h
    have hhonestA := handshakeBackend_honest hA
    obtain ⟨hencryptsA, hkeptA⟩ := handshake_sessions (by decide) hA
    obtain ⟨hencryptsB, hkeptB⟩ := handshake_sessions (by decide) hB
    obtain ⟨hagree, hcompletes⟩ :=
      handshake_agreement_iff sampleHandshake_lawful hhonestA (handshakeBackend_honest hB)
    have hsame : mA = mB :=
      (hagree 7 9 ch ch sh mA mB hch (wired_of_buildClientHello hhonestA hch)
        (fun _ => .clientHello hch) haccept hfinalize).1 rfl
    refine ⟨A, B, hA, hB, ⟨ch, sh, mA, mB, hch, haccept, hfinalize, hsame⟩, ?_⟩
    exact hcompletes (hencryptsA.trans hencryptsB.symm) (fun _ => hkeptA) (fun _ => hkeptB)
      (handshakeBackend_signs (by decide) hA hB) (handshakeBackend_signs (by decide) hB hA)

/-- The first validator signs its hello with both keys. The hello arrives with the deterministic component
of the signature alone, which verifies as well, and both ends complete with different sessions. -/
theorem stripped_signature_splits_sessions : ∃ A B ch sh mA mB,
    handshakeBackend 1 = .ok A ∧ handshakeBackend 2 = .ok B ∧
      Honest sampleHandshake samplePrimitives handshakeGenesis A 1 ∧
      Honest sampleHandshake samplePrimitives handshakeGenesis B 2 ∧
      A.buildClientHello sampleHandshake 1 2 7 = .ok ch ∧
      let ch' := { ch with signature := strippedSignature ch.signature }
      ch'.Wired ∧
        Signs sampleHandshake A 1 (sampleHandshake.clientHelloSigningMessage ch') ∧
        B.acceptClientHello sampleHandshake 9 2 ch' = .ok (sh, mB) ∧
        A.finalizeClientSession sampleHandshake 1 ch sh = .ok mA ∧
        mA.sessionKey ≠ mB.sessionKey ∧ mA.transcriptHash ≠ mB.transcriptHash := by
  have hrun : (handshakeRun strippedSignature).toOption.map (fun (mA, mB) =>
      (decide (mA.sessionKey = mB.sessionKey), decide (mA.transcriptHash = mB.transcriptHash))) =
        some (false, false) := by
    decide +kernel
  obtain ⟨⟨mA, mB⟩, hresult, hdiffer⟩ := Option.map_eq_some_iff.1 hrun
  obtain ⟨A, hA, h⟩ := except_bind_ok.1 (toOption_eq_some.1 hresult)
  obtain ⟨B, hB, h⟩ := except_bind_ok.1 h
  obtain ⟨ch, hch, h⟩ := except_bind_ok.1 h
  obtain ⟨⟨sh, mB'⟩, haccept, h⟩ := except_bind_ok.1 h
  obtain ⟨mA', hfinalize, h⟩ := except_bind_ok.1 h
  obtain ⟨rfl, rfl⟩ := Prod.mk.inj (Except.ok.inj h)
  have hhonestA := handshakeBackend_honest hA
  obtain ⟨hkeys, htranscripts⟩ := Prod.mk.inj hdiffer
  have hsigns : Signs sampleHandshake A 1 (sampleHandshake.clientHelloSigningMessage ch) :=
    .clientHello hch
  have hwire : (do
      let A ← handshakeBackend 1
      let ch ← A.buildClientHello sampleHandshake 1 2 7
      let ch' := { ch with signature := strippedSignature ch.signature }
      .ok (decide ((overTheWire ch').toOption = some ch'))) = (.ok true : Except String Bool) := by
    decide +kernel
  obtain ⟨A', hA', hwire⟩ := except_bind_ok.1 hwire
  obtain rfl := Except.ok.inj (hA.symm.trans hA')
  obtain ⟨ch', hch', hwire⟩ := except_bind_ok.1 hwire
  obtain rfl := Except.ok.inj (hch.symm.trans hch')
  have harrives := of_decide_eq_true (Except.ok.inj hwire)
  exact ⟨A, B, ch, sh, mA', mB', hA, hB, hhonestA, handshakeBackend_honest hB, hch,
    wired_of_overTheWire (toOption_eq_some.1 harrives), hsigns, haccept, hfinalize,
    of_decide_eq_false hkeys, of_decide_eq_false htranscripts⟩

end Entangrid
