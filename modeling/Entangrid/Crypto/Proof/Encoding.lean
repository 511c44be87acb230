import Entangrid.Crypto.Handshake
import Entangrid.Types.Proof.Container

/-!
# What a hello is signed over

The encodings of hellos are told apart, field by field, as those of `bincode` are; and the messages that
validators sign, those of the two hellos and hashes, are of different forms.

* `clientHelloSigningMessage_inj`: a client hello is signed over all its fields but the signature.
* `clientHello_ne_serverHello`, `clientHello_ne_hash`: no other message is one of a client hello.
* `sessionTranscript_inj`: a transcript has all fields of the client hello.
-/

namespace Entangrid

/-! ## Hashes as bytes -/

/-- A number is determined by its digits. -/
theorem eq_of_digits (base k : Nat) {a b : Nat} (ha : a < base ^ k)
    (hb : b < base ^ k) (h : ∀ i < k, a / base ^ i % base = b / base ^ i % base) : a = b := by
  induction k generalizing a b with
  | zero =>
    rw [Nat.pow_zero, Nat.lt_one_iff] at ha hb
    rw [ha, hb]
  | succ k ih =>
    have hlow : a % base = b % base := by simpa using h 0 (Nat.zero_lt_succ k)
    have hhigh : a / base = b / base := by
      refine ih (Nat.div_lt_of_lt_mul ?_) (Nat.div_lt_of_lt_mul ?_) fun i hi => ?_
      · rwa [← Nat.pow_succ']
      · rwa [← Nat.pow_succ']
      · rw [Nat.div_div_eq_div_mul, Nat.div_div_eq_div_mul, ← Nat.pow_succ']
        exact h (i + 1) (Nat.succ_lt_succ hi)
    rw [← Nat.div_add_mod a base, ← Nat.div_add_mod b base, hlow, hhigh]

@[simp] theorem HashBytes.length_toVec (h : HashBytes) : (HashBytes.toVec h).length = 32 := by
  simp [HashBytes.toVec]

theorem HashBytes.toVec_injective : Function.Injective HashBytes.toVec := by
  intro a b heq
  apply Fin.eq_of_val_eq
  refine eq_of_digits 256 32 (lt_of_lt_of_le a.isLt (by decide))
    (lt_of_lt_of_le b.isLt (by decide)) fun i hi => ?_
  have hbyte := List.map_inj_left.1 heq (31 - i) (by simp; omega)
  have hval := congrArg UInt8.toNat hbyte
  simp only [HashBytes.byte, UInt8.toNat_ofNat'] at hval
  rw [show 31 - (31 - i) = i by omega] at hval
  simpa using hval

/-! ## Fields -/

section
variable {DecapsulationKey EncapsulationKey Ciphertext Randomness : Type}

structure HandshakePrimitives.Lawful
    (H : HandshakePrimitives DecapsulationKey EncapsulationKey Ciphertext Randomness) : Prop where
  integer : H.integer.Lawful
  sessionKeyScheme : H.sessionKeyScheme.Lawful
  signatureScheme : H.signatureScheme.Lawful

/-- The containers of a hello are ones the binary form keeps, as they are when it was read from there. -/
structure SessionClientHello.Wired (ch : SessionClientHello) : Prop where
  identity : Container.Wired SessionPublicIdentity.kind
    (SessionPublicIdentity.container.toContainer ch.sessionPublicIdentity)
  signature : Container.Wired TypedSignature.container.toContainerKind
    (TypedSignature.container.toContainer ch.signature)

namespace HandshakePrimitives

variable {H : HandshakePrimitives DecapsulationKey EncapsulationKey Ciphertext Randomness}
variable {ch ch' : SessionClientHello} {sh sh' : SessionServerHello}

theorem Lawful.bytes (hH : H.Lawful) : H.bytes.Lawful := hH.integer.listOf ⟨fun _ _ => rfl⟩

theorem Lawful.sessionBincode (hH : H.Lawful) : H.sessionBincode.Lawful :=
  ⟨hH.sessionKeyScheme, hH.integer⟩

theorem Lawful.signatureBincode (hH : H.Lawful) : H.signatureBincode.Lawful :=
  ⟨hH.signatureScheme, hH.integer⟩

theorem encodeFields_append_inj (hH : H.Lawful) {first second first' second' : ValidatorId}
    {nonce nonce' : HashBytes} {identity identity' : SessionPublicIdentity}
    {material material' rest rest' : List UInt8}
    (hidentity : Container.Wired SessionPublicIdentity.kind
      (SessionPublicIdentity.container.toContainer identity))
    (hidentity' : Container.Wired SessionPublicIdentity.kind
      (SessionPublicIdentity.container.toContainer identity'))
    (heq : H.encodeFields first second nonce identity material ++ rest =
      H.encodeFields first' second' nonce' identity' material' ++ rest') :
    (first = first' ∧ second = second' ∧ nonce = nonce' ∧ identity = identity' ∧
      material = material') ∧ rest = rest' := by
  simp only [encodeFields, List.append_assoc] at heq
  obtain ⟨hfirst, heq⟩ := hH.integer.encode_append_inj heq
  obtain ⟨hsecond, heq⟩ := hH.integer.encode_append_inj heq
  obtain ⟨hnonce, heq⟩ := List.append_inj heq (by simp)
  obtain ⟨hcontainer, heq⟩ :=
    Container.serializeBinary_append_inj hH.sessionBincode hidentity hidentity' heq
  obtain ⟨hmaterial, hrest⟩ := hH.bytes.encode_append_inj heq
  have hof := congrArg SessionPublicIdentity.container.ofContainer hcontainer
  rw [SessionPublicIdentity.container_lawful.of_to, SessionPublicIdentity.container_lawful.of_to]
    at hof
  exact ⟨⟨hfirst, hsecond, HashBytes.toVec_injective hnonce, hof, hmaterial⟩, hrest⟩

theorem encodeClientFields_append_inj (hH : H.Lawful)
    (hch : Container.Wired SessionPublicIdentity.kind
      (SessionPublicIdentity.container.toContainer ch.sessionPublicIdentity))
    (hch' : Container.Wired SessionPublicIdentity.kind
      (SessionPublicIdentity.container.toContainer ch'.sessionPublicIdentity))
    {rest rest' : List UInt8}
    (heq : H.encodeClientFields ch ++ rest = H.encodeClientFields ch' ++ rest') :
    ch' = { ch with signature := ch'.signature } ∧ rest = rest' := by
  obtain ⟨⟨h₁, h₂, h₃, h₄, h₅⟩, hrest⟩ := encodeFields_append_inj hH hch hch' heq
  obtain ⟨_, _, _, _, _, _⟩ := ch
  obtain ⟨_, _, _, _, _, _⟩ := ch'
  subst h₁ h₂ h₃ h₄ h₅
  exact ⟨rfl, hrest⟩

/-! ## Signing messages -/

/-- Client hellos with the same signing message differ at most in their signatures. -/
theorem clientHelloSigningMessage_inj (hH : H.Lawful)
    (hch : Container.Wired SessionPublicIdentity.kind
      (SessionPublicIdentity.container.toContainer ch.sessionPublicIdentity))
    (hch' : Container.Wired SessionPublicIdentity.kind
      (SessionPublicIdentity.container.toContainer ch'.sessionPublicIdentity))
    (heq : H.clientHelloSigningMessage ch = H.clientHelloSigningMessage ch') :
    ch' = { ch with signature := ch'.signature } := by
  have hfields : H.encodeClientFields ch ++ [] = H.encodeClientFields ch' ++ [] := by
    rw [List.append_cancel_left heq]
  exact (encodeClientFields_append_inj hH hch hch' hfields).1

/-- The signature is left out. -/
@[simp] theorem clientHelloSigningMessage_signature (signature : TypedSignature) :
    H.clientHelloSigningMessage { ch with signature } = H.clientHelloSigningMessage ch := rfl

@[simp] theorem serverHelloSigningMessage_signature (signature : TypedSignature) :
    H.serverHelloSigningMessage ch { sh with signature } = H.serverHelloSigningMessage ch sh := rfl

/-- The messages of the two hellos start with different names. -/
theorem clientHello_ne_serverHello (hH : H.Lawful) :
    H.clientHelloSigningMessage ch ≠ H.serverHelloSigningMessage ch' sh := by
  intro heq
  unfold clientHelloSigningMessage serverHelloSigningMessage at heq
  rw [List.append_assoc] at heq
  have hname := (hH.bytes.encode_append_inj heq).1
  revert hname
  decide

theorem length_bytes_encode (bs : List UInt8) : bs.length ≤ (H.bytes.encode bs).length := by
  simp [HandshakePrimitives.bytes, Codec.listOf, Bincode.byte]

/-- The message of a client hello is longer than a hash. -/
theorem clientHello_ne_hash (hash : HashBytes) :
    H.clientHelloSigningMessage ch ≠ HashBytes.toVec hash := by
  intro heq
  have hlength := congrArg List.length heq
  have hname := length_bytes_encode (H := H) (utf8Bytes "entangrid-session-client-hello")
  have hnameLength : (utf8Bytes "entangrid-session-client-hello").length = 30 := by decide
  simp only [clientHelloSigningMessage, encodeClientFields, encodeFields, List.length_append,
    HashBytes.length_toVec] at hlength
  omega

/-! ## Transcripts -/

theorem sessionTranscript_inj (hH : H.Lawful) (hch : ch.Wired) (hch' : ch'.Wired)
    (heq : H.sessionTranscript ch sh = H.sessionTranscript ch' sh) : ch = ch' := by
  simp only [sessionTranscript, List.flatten_cons, List.flatten_nil, List.append_nil] at heq
  have hclient := List.append_cancel_right (List.append_cancel_left heq)
  obtain ⟨hfields, hsignature⟩ := encodeClientFields_append_inj hH hch.identity hch'.identity hclient
  have happend : H.encodeSignature ch.signature ++ [] = H.encodeSignature ch'.signature ++ [] := by
    rw [hsignature]
  have hcontainer := (Container.serializeBinary_append_inj hH.signatureBincode hch.signature
    hch'.signature happend).1
  have hof := congrArg TypedSignature.container.ofContainer hcontainer
  rw [TypedSignature.container_lawful.of_to, TypedSignature.container_lawful.of_to] at hof
  rw [hfields, ← hof]

end HandshakePrimitives

end

end Entangrid
