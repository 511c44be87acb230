import Entangrid.Error
import Entangrid.Types.Container
import Mathlib.Data.List.Nodup

/-!
# Decoding typed containers

What the constructors of a typed container build comes back from both encodings. The converse is a
matter of the check a decoder ends in: session identities are built by their constructors, signatures
and public identities are taken as they come.

* `built_iff`: the values the constructors build, by their shape.
* `containers_round_trip`: built values come back from both encodings, and a non-hybrid one is encoded
  as the scheme and the bytes alone.
* `decoders_accept_built_iff`: what a decoder accepts is a built value exactly when the input has the
  shape of one; for a session identity it always is. Built values are told apart by their encodings.
-/

namespace Entangrid

/-! ## Lawful formats -/

structure Bincode.Lawful {S : Type} (B : Bincode S) : Prop where
  variant : B.variant.Lawful
  length : B.length.Lawful

namespace Bincode.Lawful

variable {S : Type} {B : Bincode S} (h : B.Lawful)
include h

theorem bytes : B.bytes.Lawful := h.length.listOf ⟨fun _ _ => rfl⟩

theorem schemeAndBytes : B.schemeAndBytes.Lawful := h.variant.pair h.bytes

theorem components : B.components.Lawful := h.length.listOf h.schemeAndBytes

end Bincode.Lawful

/-- A format gives its values back. -/
structure HumanFormat.Lawful {S V : Type} (F : HumanFormat S V) : Prop where
  scheme : ∀ s, F.toScheme (F.ofScheme s) = .ok s
  bytes : ∀ bs, F.toBytes (F.ofBytes bs) = .ok bs
  components : ∀ cs, F.toComponents (F.ofComponents cs) = .ok cs

/-- A field of a struct, by its name or its place. -/
def HumanForm.field? {V : Type} (form : HumanForm V) (name : String) (index : Nat) : Option V :=
  match form with
  | .map entries => (entries.find? (·.1 = name)).map (·.2)
  | .seq elements => elements[index]?

namespace Container

variable {S V : Type} [DecidableEq S] {K : ContainerKind S} {B : Bincode S} {F : HumanFormat S V}
variable {build : S → List UInt8 → List (S × List UInt8) → Except String (Container S)}
variable {c : Container S}

/-! ## What the constructors build -/

/-- The components `try_hybrid` takes. -/
structure Proper (K : ContainerKind S) (components : List (S × List UInt8)) : Prop where
  nonempty : components ≠ []
  distinct : (components.map (·.1)).Nodup
  flat : K.hybrid ∉ components.map (·.1)

/-- Bytes alone under a plain scheme, proper components alone under the hybrid one. -/
def Shaped (K : ContainerKind S) (c : Container S) : Prop :=
  if c.scheme = K.hybrid then c.bytes = [] ∧ Proper K c.components else c.components = []

theorem checkComponents_ok {seen : List S} {components : List (S × List UInt8)} {u : Unit} :
    checkComponents K seen components = .ok u ↔
      (components.map (·.1)).Nodup ∧ K.hybrid ∉ components.map (·.1) ∧
        ∀ s ∈ components.map (·.1), s ∉ seen := by
  induction components generalizing seen with
  | nil => simp [checkComponents]
  | cons component rest ih =>
    unfold checkComponents
    by_cases hhybrid : component.1 = K.hybrid
    · simp [hhybrid]
    · by_cases hseen : component.1 ∈ seen
      · simp [hhybrid, hseen]
      · rw [if_neg hhybrid, if_neg hseen, ih]
        simp only [List.map_cons, List.nodup_cons, List.mem_cons, not_or, forall_eq_or_imp]
        constructor
        · rintro ⟨hnodup, hflat, hfresh⟩
          exact ⟨⟨fun hmem => (hfresh _ hmem).1 rfl, hnodup⟩, ⟨Ne.symm hhybrid, hflat⟩, hseen,
            fun s hs => (hfresh s hs).2⟩
        · rintro ⟨⟨hnotMem, hnodup⟩, ⟨-, hflat⟩, -, hfresh⟩
          exact ⟨hnodup, hflat, fun s hs => ⟨fun heq => hnotMem (heq ▸ hs), hfresh s hs⟩⟩

theorem tryHybrid_ok {components : List (S × List UInt8)} :
    tryHybrid K components = .ok c ↔
      Proper K components ∧ c = { scheme := K.hybrid, bytes := [], components } := by
  unfold tryHybrid
  cases hempty : components.isEmpty with
  | true =>
    rw [List.isEmpty_iff.1 hempty]
    simpa using fun h : Proper K [] => absurd rfl h.nonempty
  | false =>
    have hne : components ≠ [] := by
      rintro rfl
      simp at hempty
    cases hcheck : checkComponents K [] components with
    | error text =>
      have hproper : ¬Proper K components := fun h => by
        have hok : checkComponents K [] components = .ok () :=
          checkComponents_ok.2 ⟨h.distinct, h.flat, by simp⟩
        rw [hcheck] at hok
        cases hok
      simp [hproper]
    | ok u =>
      obtain ⟨hdistinct, hflat, -⟩ := checkComponents_ok.1 hcheck
      simp [Proper.mk hne hdistinct hflat, eq_comm]

theorem Shaped.of_buildChecked {scheme : S} {bytes : List UInt8}
    {components : List (S × List UInt8)} (h : buildChecked K scheme bytes components = .ok c) :
    Shaped K c := by
  unfold buildChecked at h
  split_ifs at h with hscheme hcomponents
  · obtain ⟨hproper, rfl⟩ := tryHybrid_ok.1 h
    simp [Shaped, hproper]
  · obtain rfl := Except.ok.inj h
    simp [Shaped, single, hscheme]

theorem Shaped.buildChecked (h : Shaped K c) :
    buildChecked K c.scheme c.bytes c.components = .ok c := by
  obtain ⟨scheme, bytes, components⟩ := c
  unfold Shaped at h
  unfold Container.buildChecked
  split_ifs at h with hscheme
  · obtain ⟨rfl, hproper⟩ := h
    rw [if_pos hscheme, tryHybrid_ok]
    exact ⟨hproper, by rw [show scheme = K.hybrid from hscheme]⟩
  · obtain rfl : components = [] := h
    rw [if_neg hscheme]
    rfl

/-! ## The binary form -/

/-- What was built comes back, and what follows it is left over. -/
theorem deserializeBinary_serializeBinary (hB : B.Lawful) (hc : Shaped K c)
    (hbuild : build c.scheme c.bytes c.components = .ok c) (rest : List UInt8) :
    deserializeBinary K build B (c.serializeBinary K B ++ rest) = .ok (c, rest) := by
  unfold deserializeBinary serializeBinary
  rw [hB.schemeAndBytes.decode_encode, except_ok_bind]
  by_cases hscheme : c.scheme = K.hybrid
  · simp only [Shaped, if_pos hscheme] at hc
    simp only [if_pos hscheme, hB.components.decode_encode_all, except_ok_bind]
    rw [if_neg (by simp), ← hscheme, buildOrFail]
    rw [hc.1] at hbuild
    rw [hbuild]
    rfl
  · simp only [Shaped, if_neg hscheme] at hc
    simp only [if_neg hscheme, buildOrFail]
    rw [hc] at hbuild
    rw [hbuild]
    rfl

/-- What the binary form keeps apart: one of the bytes and the components is empty. -/
def Wired (K : ContainerKind S) (c : Container S) : Prop :=
  if c.scheme = K.hybrid then c.bytes = [] else c.components = []

theorem Shaped.wired (h : Shaped K c) : Wired K c := by
  unfold Shaped at h
  unfold Wired
  split_ifs at h ⊢
  · exact h.1
  · exact h

/-- No binary form is a prefix of another's. -/
theorem serializeBinary_append_inj {c' : Container S} {rest rest' : List UInt8} (hB : B.Lawful)
    (hc : Wired K c) (hc' : Wired K c')
    (heq : c.serializeBinary K B ++ rest = c'.serializeBinary K B ++ rest') :
    c = c' ∧ rest = rest' := by
  obtain ⟨hpair, hrest⟩ := hB.schemeAndBytes.encode_append_inj heq
  obtain ⟨hscheme, hpayload⟩ := Prod.mk.inj hpair
  refine ⟨?_, hrest⟩
  unfold Wired at hc hc'
  rw [← hscheme] at hc' hpayload
  split_ifs at hc hc' hpayload
  · exact Container.ext hscheme (hc.trans hc'.symm) (hB.components.encode_injective hpayload)
  · exact Container.ext hscheme hpayload (hc.trans hc'.symm)

/-! ## The human-readable form -/

omit [DecidableEq S] in
theorem deserializeHuman_serializeHuman (hF : F.Lawful)
    (hbuild : build c.scheme c.bytes c.components = .ok c) :
    deserializeHuman F build (.map (c.serializeHuman F)) = .ok c ∧
      deserializeHuman F build (.seq ((c.serializeHuman F).map (·.2))) = .ok c := by
  have hbuild' : buildOrFail build c.scheme c.bytes c.components = .ok c := by
    rw [buildOrFail, hbuild]
  cases hempty : c.components.isEmpty with
  | true =>
    rw [List.isEmpty_iff.1 hempty] at hbuild'
    constructor
    · simp [deserializeHuman, serializeHuman, visitMap, readFields, hempty, hF.scheme, hF.bytes,
        required, except_ok_bind, hbuild']
    · simp [deserializeHuman, serializeHuman, visitSeq, hempty, hF.scheme, hF.bytes, required,
        except_ok_bind, hbuild']
  | false =>
    constructor
    · simp [deserializeHuman, serializeHuman, visitMap, readFields, hempty, hF.scheme, hF.bytes,
        hF.components, required, except_ok_bind, hbuild']
    · simp [deserializeHuman, serializeHuman, visitSeq, hempty, hF.scheme, hF.bytes, hF.components,
        required, except_ok_bind, hbuild']

/-- How a visitor comes from a field it had read, if any, and the field's entry to what it has in the
end. -/
def Reads {α : Type} (read : V → Except DecodeError α) (old : Option α)
    (entry : Option (String × V)) (new : Option α) : Prop :=
  match old, entry with
  | none, none => new = none
  | none, some (_, value) => ∃ a, read value = .ok a ∧ new = some a
  | some a, none => new = some a
  | some _, some _ => False

omit [DecidableEq S] in
theorem readFields_ok {fields out : Fields S} {entries : List (String × V)}
    (h : readFields F fields entries = .ok out) :
    Reads F.toScheme fields.scheme (entries.find? (·.1 = "scheme")) out.scheme ∧
      Reads F.toBytes fields.bytes (entries.find? (·.1 = "bytes")) out.bytes ∧
      Reads F.toComponents fields.components (entries.find? (·.1 = "components")) out.components := by
  induction entries generalizing fields with
  | nil =>
    obtain rfl := Except.ok.inj h
    obtain ⟨scheme, bytes, components⟩ := fields
    cases scheme <;> cases bytes <;> cases components <;> simp [Reads]
  | cons entry rest ih =>
    obtain ⟨key, value⟩ := entry
    unfold readFields at h
    split_ifs at h with hscheme hread hbytes hread hcomponents hread
    · subst hscheme
      obtain ⟨scheme, hvalue, h⟩ := except_bind_ok.1 h
      obtain ⟨h₁, h₂, h₃⟩ := ih h
      refine ⟨?_, by simpa using h₂, by simpa using h₃⟩
      rw [Option.not_isSome_iff_eq_none.1 hread]
      cases hrest : rest.find? (·.1 = "scheme") <;> simp_all [Reads]
    · subst hbytes
      obtain ⟨bytes, hvalue, h⟩ := except_bind_ok.1 h
      obtain ⟨h₁, h₂, h₃⟩ := ih h
      refine ⟨by simpa using h₁, ?_, by simpa using h₃⟩
      rw [Option.not_isSome_iff_eq_none.1 hread]
      cases hrest : rest.find? (·.1 = "bytes") <;> simp_all [Reads]
    · subst hcomponents
      obtain ⟨components, hvalue, h⟩ := except_bind_ok.1 h
      obtain ⟨h₁, h₂, h₃⟩ := ih h
      refine ⟨by simpa using h₁, by simpa using h₂, ?_⟩
      rw [Option.not_isSome_iff_eq_none.1 hread]
      cases hrest : rest.find? (·.1 = "components") <;> simp_all [Reads]

/-- The fields of a struct are read as these. -/
structure ReadAs (F : HumanFormat S V) (form : HumanForm V) (c : Container S) : Prop where
  scheme : ∃ value, form.field? "scheme" 0 = some value ∧ F.toScheme value = .ok c.scheme
  bytes : ∃ value, form.field? "bytes" 1 = some value ∧ F.toBytes value = .ok c.bytes
  components : match form.field? "components" 2 with
    | none => c.components = []
    | some value => F.toComponents value = .ok c.components

omit [DecidableEq S] in
theorem ReadAs.unique {form : HumanForm V} {c' : Container S} (h : ReadAs F form c)
    (h' : ReadAs F form c') : c = c' := by
  obtain ⟨scheme, bytes, components⟩ := c
  obtain ⟨scheme', bytes', components'⟩ := c'
  obtain ⟨⟨sv, hs, hsv⟩, ⟨bv, hb, hbv⟩, hc⟩ := h
  obtain ⟨⟨sv', hs', hsv'⟩, ⟨bv', hb', hbv'⟩, hc'⟩ := h'
  obtain rfl := Option.some.inj (hs.symm.trans hs')
  obtain rfl := Option.some.inj (hb.symm.trans hb')
  cases hfield : form.field? "components" 2 <;> simp_all

theorem required_ok {α : Type} {value : Option α} {e : DecodeError} {a : α} :
    required value e = .ok a ↔ value = some a := by
  cases value <;> simp [required]

theorem buildOrFail_ok {S : Type} {build : S → List UInt8 → List (S × List UInt8) → Except String (Container S)}
    {scheme : S} {bytes : List UInt8} {components : List (S × List UInt8)} {c : Container S} :
    buildOrFail build scheme bytes components = .ok c ↔ build scheme bytes components = .ok c := by
  unfold buildOrFail
  cases build scheme bytes components <;> simp

omit [DecidableEq S] in
/-- What a decoder accepts in a human-readable format is built from the fields as they are read. -/
theorem deserializeHuman_ok {form : HumanForm V} (h : deserializeHuman F build form = .ok c) :
    ∃ read, ReadAs F form read ∧ build read.scheme read.bytes read.components = .ok c := by
  cases form with
  | map entries =>
    obtain ⟨fields, hfields, h⟩ := except_bind_ok.1 h
    obtain ⟨scheme, hscheme, h⟩ := except_bind_ok.1 h
    obtain ⟨bytes, hbytes, h⟩ := except_bind_ok.1 h
    obtain ⟨h₁, h₂, h₃⟩ := readFields_ok hfields
    refine ⟨⟨scheme, bytes, fields.components.getD []⟩, ⟨?_, ?_, ?_⟩, buildOrFail_ok.1 h⟩
    · rw [required_ok.1 hscheme] at h₁
      cases hentry : entries.find? (·.1 = "scheme") <;> simp_all [Reads, HumanForm.field?]
    · rw [required_ok.1 hbytes] at h₂
      cases hentry : entries.find? (·.1 = "bytes") <;> simp_all [Reads, HumanForm.field?]
    · simp only [HumanForm.field?]
      cases hentry : entries.find? (·.1 = "components") with
      | none =>
        rw [hentry] at h₃
        simpa [Reads] using congrArg (Option.getD · []) h₃
      | some entry =>
        rw [hentry] at h₃
        obtain ⟨components, hread, hcomponents⟩ := h₃
        simpa [hcomponents] using hread
  | seq elements =>
    obtain ⟨schemeValue, hschemeValue, h⟩ := except_bind_ok.1 h
    obtain ⟨scheme, hscheme, h⟩ := except_bind_ok.1 h
    obtain ⟨bytesValue, hbytesValue, h⟩ := except_bind_ok.1 h
    obtain ⟨bytes, hbytes, h⟩ := except_bind_ok.1 h
    have hscheme' : (HumanForm.seq elements).field? "scheme" 0 = some schemeValue :=
      required_ok.1 hschemeValue
    have hbytes' : (HumanForm.seq elements).field? "bytes" 1 = some bytesValue :=
      required_ok.1 hbytesValue
    cases hthird : elements[2]? with
    | none =>
      rw [hthird] at h
      exact ⟨⟨scheme, bytes, []⟩, ⟨⟨_, hscheme', hscheme⟩, ⟨_, hbytes', hbytes⟩,
        by simp [HumanForm.field?, hthird]⟩, buildOrFail_ok.1 h⟩
    | some value =>
      rw [hthird] at h
      obtain ⟨components, hcomponents, h⟩ := except_bind_ok.1 h
      exact ⟨⟨scheme, bytes, components⟩, ⟨⟨_, hscheme', hscheme⟩, ⟨_, hbytes', hbytes⟩,
        by simpa [HumanForm.field?, hthird] using hcomponents⟩, buildOrFail_ok.1 h⟩

/-- What a decoder accepts in `bincode` is built from the scheme and the payload. -/
theorem deserializeBinary_ok {input rest : List UInt8}
    (h : deserializeBinary K build B input = .ok (c, rest)) :
    ∃ scheme payload, B.schemeAndBytes.decode input = .ok ((scheme, payload), rest) ∧
      if scheme = K.hybrid then
        ∃ components, B.components.decode payload = .ok (components, []) ∧
          build K.hybrid [] components = .ok c
      else build scheme payload [] = .ok c := by
  obtain ⟨⟨⟨scheme, payload⟩, rest'⟩, hdecode, h⟩ := except_bind_ok.1 h
  refine ⟨scheme, payload, ?_⟩
  dsimp only at h
  split_ifs at h ⊢ with hscheme
  · obtain ⟨⟨components, leftover⟩, hcomponents, h⟩ := except_bind_ok.1 h
    dsimp only at h
    split_ifs at h with hleftover
    obtain ⟨c', hbuild, h⟩ := except_bind_ok.1 h
    obtain ⟨rfl, rfl⟩ := Prod.mk.inj (Except.ok.inj h)
    obtain rfl : leftover = [] := by simpa using hleftover
    exact ⟨hdecode, components, hcomponents, buildOrFail_ok.1 hbuild⟩
  · obtain ⟨c', hbuild, h⟩ := except_bind_ok.1 h
    obtain ⟨rfl, rfl⟩ := Prod.mk.inj (Except.ok.inj h)
    exact ⟨hdecode, buildOrFail_ok.1 hbuild⟩

theorem Shaped.of_deserializeBinary {input rest : List UInt8}
    (h : deserializeBinary K (Container.buildChecked K) B input = .ok (c, rest)) : Shaped K c := by
  obtain ⟨scheme, payload, -, hbuilt⟩ := deserializeBinary_ok h
  split_ifs at hbuilt
  · obtain ⟨components, -, hbuilt⟩ := hbuilt
    exact .of_buildChecked hbuilt
  · exact .of_buildChecked hbuilt

theorem Wired.of_buildUnchecked {input rest : List UInt8}
    (h : deserializeBinary K buildUnchecked B input = .ok (c, rest)) : Wired K c := by
  obtain ⟨scheme, payload, -, hbuilt⟩ := deserializeBinary_ok h
  unfold Wired
  by_cases hscheme : scheme = K.hybrid
  · rw [if_pos hscheme] at hbuilt
    obtain ⟨components, -, hbuilt⟩ := hbuilt
    obtain rfl := Except.ok.inj hbuilt
    simp
  · rw [if_neg hscheme] at hbuilt
    obtain rfl := Except.ok.inj hbuilt
    simp [hscheme]

end Container

/-! ## The three types -/

namespace ContainerType

variable {T S V : Type} [DecidableEq S] {K : ContainerType T S} {B : Bincode S}
variable {F : HumanFormat S V} {t t' : T}

/-- The values of a type are containers, and its decoder builds those of the right shape. -/
structure Lawful (K : ContainerType T S) : Prop where
  of_to : ∀ t, K.ofContainer (K.toContainer t) = t
  to_of : ∀ c, K.toContainer (K.ofContainer c) = c
  builds : ∀ c, Container.Shaped K.toContainerKind c →
    K.build c.scheme c.bytes c.components = .ok c

/-- The values of the two constructors. -/
inductive Built (K : ContainerType T S) : T → Prop
  | single {scheme bytes} (hscheme : scheme ≠ K.hybrid) : Built K (K.single scheme bytes)
  | hybrid (components) {t} (hcomponents : K.tryHybrid components = .ok t) : Built K t

/-- The constructors build a plain scheme with bytes alone, or the hybrid one with components alone, at
least one and of distinct plain schemes. -/
theorem built_iff (hK : K.Lawful) :
    K.Built t ↔ Container.Shaped K.toContainerKind (K.toContainer t) := by
  constructor
  · rintro (hscheme | ⟨components, hcomponents⟩)
    · simp [ContainerType.single, hK.to_of, Container.Shaped, Container.single, hscheme]
    · unfold ContainerType.tryHybrid at hcomponents
      cases hc : Container.tryHybrid K.toContainerKind components with
      | error text => simp [hc, Except.map] at hcomponents
      | ok c =>
        obtain rfl : K.ofContainer c = t := by simpa [hc, Except.map] using hcomponents
        obtain ⟨hproper, rfl⟩ := Container.tryHybrid_ok.1 hc
        simpa [hK.to_of, Container.Shaped] using hproper
  · intro hshaped
    by_cases hscheme : (K.toContainer t).scheme = K.hybrid
    · rw [Container.Shaped, if_pos hscheme] at hshaped
      obtain ⟨hbytes, hproper⟩ := hshaped
      refine .hybrid (K.toContainer t).components ?_
      have hc : Container.tryHybrid K.toContainerKind (K.toContainer t).components =
          .ok (K.toContainer t) :=
        Container.tryHybrid_ok.2 ⟨hproper, Container.ext hscheme hbytes rfl⟩
      simp [ContainerType.tryHybrid, hc, Except.map, hK.of_to]
    · rw [Container.Shaped, if_neg hscheme] at hshaped
      have ht : K.single (K.toContainer t).scheme (K.toContainer t).bytes = t := by
        have hc : Container.single (K.toContainer t).scheme (K.toContainer t).bytes =
            K.toContainer t := Container.ext rfl rfl hshaped.symm
        rw [ContainerType.single, hc, hK.of_to]
      exact ht ▸ .single hscheme

/-- A value comes back from its encodings; under a plain scheme it is encoded as the record was
before it had components. -/
structure RoundTrips (K : ContainerType T S) (t : T) : Prop where
  binary : ∀ B : Bincode S, B.Lawful → ∀ rest,
    K.deserializeBinary B (K.serializeBinary B t ++ rest) = .ok (t, rest)
  human : ∀ {V : Type} (F : HumanFormat S V), F.Lawful →
    K.deserializeHuman F (.map (K.serializeHuman F t)) = .ok t ∧
      K.deserializeHuman F (.seq ((K.serializeHuman F t).map (·.2))) = .ok t
  legacy : ∀ B : Bincode S, (K.toContainer t).scheme ≠ K.hybrid →
    K.serializeBinary B t =
      B.schemeAndBytes.encode ((K.toContainer t).scheme, (K.toContainer t).bytes)

theorem Built.roundTrips (hK : K.Lawful) (ht : K.Built t) : K.RoundTrips t where
  binary B hB rest := by
    have hshaped := (built_iff hK).1 ht
    have hdecode := Container.deserializeBinary_serializeBinary hB hshaped (hK.builds _ hshaped) rest
    unfold ContainerType.deserializeBinary ContainerType.serializeBinary
    simp only [hdecode, except_ok_bind, hK.of_to]
  human F hF := by
    have hshaped := (built_iff hK).1 ht
    obtain ⟨hmap, hseq⟩ := Container.deserializeHuman_serializeHuman hF (hK.builds _ hshaped)
    unfold ContainerType.deserializeHuman ContainerType.serializeHuman
    exact ⟨by rw [hmap, except_ok_bind, hK.of_to], by rw [hseq, except_ok_bind, hK.of_to]⟩
  legacy B hscheme := by
    simp [ContainerType.serializeBinary, Container.serializeBinary, hscheme]

/-- Built values are told apart by their binary encodings. -/
theorem Built.serializeBinary_inj (hK : K.Lawful) (hB : B.Lawful) (ht : K.Built t)
    (ht' : K.Built t') (heq : K.serializeBinary B t = K.serializeBinary B t') : t = t' := by
  have h := (ht.roundTrips hK).binary B hB []
  rw [heq, (ht'.roundTrips hK).binary B hB []] at h
  exact (Prod.mk.inj (Except.ok.inj h)).1.symm

/-- The input has the shape of a built value: the components of a hybrid payload are proper, or the
fields in a human-readable format, as they are read, have the shape. -/
def ShapedInput (K : ContainerType T S) {V : Type} (B : Bincode S) (F : HumanFormat S V) :
    Encoded V → Prop
  | .binary input => ∀ payload rest components,
      B.schemeAndBytes.decode input = .ok ((K.hybrid, payload), rest) →
      B.components.decode payload = .ok (components, []) →
      Container.Proper K.toContainerKind components
  | .human form => ∀ c, Container.ReadAs F form c → Container.Shaped K.toContainerKind c

theorem deserialize_binary_ok {input : List UInt8}
    (h : K.deserialize B F (.binary input) = .ok t) :
    ∃ c rest, Container.deserializeBinary K.toContainerKind K.build B input = .ok (c, rest) ∧
      K.ofContainer c = t := by
  obtain ⟨⟨t', rest⟩, hbinary, h⟩ := except_bind_ok.1 h
  obtain ⟨⟨c, rest'⟩, hc, hbinary⟩ := except_bind_ok.1 hbinary
  obtain ⟨rfl, rfl⟩ := Prod.mk.inj (Except.ok.inj hbinary)
  exact ⟨c, rest', hc, Except.ok.inj h⟩

theorem deserialize_human_ok {form : HumanForm V} (h : K.deserialize B F (.human form) = .ok t) :
    ∃ c, Container.deserializeHuman F K.build form = .ok c ∧ K.ofContainer c = t := by
  obtain ⟨c, hc, h⟩ := except_bind_ok.1 h
  exact ⟨c, hc, Except.ok.inj h⟩

/-- A decoder without checks builds what the input is. -/
theorem built_iff_of_unchecked (hK : K.Lawful) (hbuild : K.build = Container.buildUnchecked)
    {input : Encoded V} (h : K.deserialize B F input = .ok t) :
    K.Built t ↔ K.ShapedInput B F input := by
  rw [built_iff hK]
  cases input with
  | binary input =>
    obtain ⟨c, rest, hc, rfl⟩ := deserialize_binary_ok h
    obtain ⟨scheme, payload, hdecode, hbuilt⟩ := Container.deserializeBinary_ok hc
    rw [hK.to_of]
    by_cases hscheme : scheme = K.hybrid
    · subst hscheme
      rw [if_pos rfl] at hbuilt
      obtain ⟨components, hcomponents, hbuilt⟩ := hbuilt
      rw [hbuild] at hbuilt
      obtain rfl := Except.ok.inj hbuilt
      constructor
      · intro hshaped payload' rest' components' hdecode' hcomponents'
        obtain ⟨⟨-, rfl⟩, -⟩ := by simpa using hdecode.symm.trans hdecode'
        obtain rfl : components = components' := by simpa using hcomponents.symm.trans hcomponents'
        simpa [Container.Shaped] using hshaped
      · intro hinput
        simpa [Container.Shaped] using hinput payload rest components hdecode hcomponents
    · rw [if_neg hscheme, hbuild] at hbuilt
      obtain rfl := Except.ok.inj hbuilt
      simp [Container.Shaped, ShapedInput, hdecode, hscheme]
  | human form =>
    obtain ⟨c, hc, rfl⟩ := deserialize_human_ok h
    obtain ⟨read, hread, hbuilt⟩ := Container.deserializeHuman_ok hc
    rw [hbuild] at hbuilt
    obtain rfl : read = c := Except.ok.inj hbuilt
    rw [hK.to_of]
    exact ⟨fun hshaped c' hc' => hread.unique hc' ▸ hshaped, fun hshaped => hshaped _ hread⟩

/-- A decoder that ends in the checks builds no other values. -/
theorem built_of_checked (hK : K.Lawful)
    (hbuild : K.build = Container.buildChecked K.toContainerKind) {input : Encoded V}
    (h : K.deserialize B F input = .ok t) : K.Built t := by
  rw [built_iff hK]
  cases input with
  | binary input =>
    obtain ⟨c, rest, hc, rfl⟩ := deserialize_binary_ok h
    rw [hK.to_of]
    exact .of_deserializeBinary (hbuild ▸ hc)
  | human form =>
    obtain ⟨c, hc, rfl⟩ := deserialize_human_ok h
    obtain ⟨read, -, hbuilt⟩ := Container.deserializeHuman_ok hc
    rw [hK.to_of]
    exact .of_buildChecked (hbuild ▸ hbuilt)

/-- Under the condition on its input, and only then, what the decoder accepts is a built value; such
values are told apart by their binary encodings. -/
structure AcceptsBuiltWhen (K : ContainerType T S) (B : Bincode S) (F : HumanFormat S V)
    (condition : Encoded V → Prop) : Prop where
  built_iff : ∀ input t, K.deserialize B F input = .ok t → (K.Built t ↔ condition input)
  injective : B.Lawful → ∀ input input' t t', K.deserialize B F input = .ok t →
    K.deserialize B F input' = .ok t' → condition input → condition input' →
    K.serializeBinary B t = K.serializeBinary B t' → t = t'

theorem AcceptsBuiltWhen.of_built_iff (hK : K.Lawful) {condition : Encoded V → Prop}
    (hbuilt : ∀ input t, K.deserialize B F input = .ok t → (K.Built t ↔ condition input)) :
    K.AcceptsBuiltWhen B F condition where
  built_iff := hbuilt
  injective hB input input' t t' h h' hinput hinput' heq :=
    Built.serializeBinary_inj hK hB ((hbuilt input t h).2 hinput) ((hbuilt input' t' h').2 hinput') heq

end ContainerType

theorem TypedSignature.container_lawful : TypedSignature.container.Lawful where
  of_to t := by simp [TypedSignature.container, Function.comp_def]
  to_of c := by simp [TypedSignature.container, Function.comp_def]
  builds _ _ := rfl

theorem PublicIdentity.container_lawful : PublicIdentity.container.Lawful where
  of_to t := by simp [PublicIdentity.container, Function.comp_def]
  to_of c := by simp [PublicIdentity.container, Function.comp_def]
  builds _ _ := rfl

theorem SessionPublicIdentity.container_lawful : SessionPublicIdentity.container.Lawful where
  of_to t := by simp [SessionPublicIdentity.container, Function.comp_def]
  to_of c := by simp [SessionPublicIdentity.container, Function.comp_def]
  builds _ hc := hc.buildChecked

/-! ## Formats that evaluate -/

/-- The variable-length numbers of `bincode` below 251, and a unary form for the others. -/
def sampleLength : Codec DecodeError Nat where
  encode n := if n < 251 then [UInt8.ofNat n] else 251 :: (List.replicate n 1 ++ [0])
  decode
    | [] => .error (.format "unexpected end")
    | b :: rest =>
      if b ≠ 251 then .ok (b.toNat, rest)
      else .ok ((rest.takeWhile (· = 1)).length, (rest.dropWhile (· = 1)).drop 1)

theorem sampleLength_lawful : sampleLength.Lawful where
  decode_encode n rest := by
    by_cases hn : n < 251
    · have hne : UInt8.ofNat n ≠ 251 := by
        intro heq
        have := congrArg UInt8.toNat heq
        simp at this
        omega
      simp [sampleLength, hn, hne]
      omega
    · simp [sampleLength, hn]

def sampleSignatureBincode : Bincode SignatureScheme where
  variant :=
    { encode s := match s with
        | .devDeterministic => [0] | .ed25519 => [1] | .mlDsa => [2] | .hybrid => [3]
      decode
        | 0 :: rest => .ok (.devDeterministic, rest)
        | 1 :: rest => .ok (.ed25519, rest)
        | 2 :: rest => .ok (.mlDsa, rest)
        | 3 :: rest => .ok (.hybrid, rest)
        | _ => .error (.format "unexpected variant") }
  length := sampleLength

theorem sampleSignatureBincode_lawful : sampleSignatureBincode.Lawful where
  variant := ⟨fun s _ => by cases s <;> rfl⟩
  length := sampleLength_lawful

inductive SampleValue (S : Type) where
  | scheme (s : S)
  | bytes (bs : List UInt8)
  | components (cs : List (S × List UInt8))

def sampleHumanFormat (S : Type) : HumanFormat S (SampleValue S) where
  ofScheme := .scheme
  ofBytes := .bytes
  ofComponents := .components
  toScheme | .scheme s => .ok s | _ => .error (.format "expected a scheme")
  toBytes | .bytes bs => .ok bs | _ => .error (.format "expected bytes")
  toComponents | .components cs => .ok cs | _ => .error (.format "expected components")

theorem sampleHumanFormat_lawful (S : Type) : (sampleHumanFormat S).Lawful :=
  ⟨fun _ => rfl, fun _ => rfl, fun _ => rfl⟩

/-! ## Built values and decoders -/

/-- **Round trips.** Whatever the constructors of a typed container build comes back from `bincode`, with
all its bytes consumed and no other, and from a human-readable format, as a map or a sequence. -/
theorem containers_round_trip :
    (∀ s, TypedSignature.container.Built s → TypedSignature.container.RoundTrips s) ∧
      (∀ i, PublicIdentity.container.Built i → PublicIdentity.container.RoundTrips i) ∧
      ∀ i, SessionPublicIdentity.container.Built i →
        SessionPublicIdentity.container.RoundTrips i :=
  ⟨fun _ hs => hs.roundTrips TypedSignature.container_lawful,
    fun _ hi => hi.roundTrips PublicIdentity.container_lawful,
    fun _ hi => hi.roundTrips SessionPublicIdentity.container_lawful⟩

theorem sample_hybrid_signature_round_trips :
    TypedSignature.container.RoundTrips
      { scheme := .hybrid, components := [⟨.devDeterministic, [1, 2]⟩, ⟨.mlDsa, []⟩] } :=
  containers_round_trip.1 _
    (.hybrid [(.devDeterministic, [1, 2]), (.mlDsa, [])] (by decide))

/-- **What decoders accept.** A signature or a public identity that is accepted is a built value exactly
when its input has the shape of one. A session identity always is. -/
theorem decoders_accept_built_iff {V : Type}
    (B₁ : Bincode SignatureScheme) (F₁ : HumanFormat SignatureScheme V)
    (B₂ : Bincode PublicKeyScheme) (F₂ : HumanFormat PublicKeyScheme V)
    (B₃ : Bincode SessionKeyScheme) (F₃ : HumanFormat SessionKeyScheme V) :
    TypedSignature.container.AcceptsBuiltWhen B₁ F₁
        (TypedSignature.container.ShapedInput B₁ F₁) ∧
      PublicIdentity.container.AcceptsBuiltWhen B₂ F₂
        (PublicIdentity.container.ShapedInput B₂ F₂) ∧
      SessionPublicIdentity.container.AcceptsBuiltWhen B₃ F₃ fun _ => True := by
  refine ⟨.of_built_iff TypedSignature.container_lawful fun input s h => ?_,
    .of_built_iff PublicIdentity.container_lawful fun input i h => ?_,
    .of_built_iff SessionPublicIdentity.container_lawful fun input i h => ?_⟩
  · exact ContainerType.built_iff_of_unchecked TypedSignature.container_lawful rfl h
  · exact ContainerType.built_iff_of_unchecked PublicIdentity.container_lawful rfl h
  · exact iff_true_intro
      (ContainerType.built_of_checked SessionPublicIdentity.container_lawful rfl h)

/-- A hybrid signature without components is accepted, and so is a plain one with components, which is
encoded as the same signature without them. -/
theorem unbuildable_signatures_are_accepted :
    sampleSignatureBincode.Lawful ∧ (sampleHumanFormat SignatureScheme).Lawful ∧
      (∃ s, TypedSignature.container.deserialize sampleSignatureBincode
          (sampleHumanFormat SignatureScheme) (.binary [3, 1, 0]) = .ok s ∧
        ¬TypedSignature.container.Built s) ∧
      ∃ s s', TypedSignature.container.deserialize sampleSignatureBincode
          (sampleHumanFormat SignatureScheme)
          (.human (.map [("scheme", .scheme .mlDsa), ("bytes", .bytes [7]),
            ("components", .components [(.devDeterministic, [1])])])) = .ok s ∧
        TypedSignature.container.deserialize sampleSignatureBincode
          (sampleHumanFormat SignatureScheme) (.binary [2, 1, 7]) = .ok s' ∧
        TypedSignature.container.serializeBinary sampleSignatureBincode s =
          TypedSignature.container.serializeBinary sampleSignatureBincode s' ∧ s ≠ s' := by
  refine ⟨sampleSignatureBincode_lawful, sampleHumanFormat_lawful _,
    ⟨{ scheme := .hybrid }, rfl, ?_⟩,
    ⟨{ scheme := .mlDsa, bytes := [7], components := [⟨.devDeterministic, [1]⟩] },
      { scheme := .mlDsa, bytes := [7] }, by decide, rfl, rfl, by decide⟩⟩
  rw [ContainerType.built_iff TypedSignature.container_lawful]
  intro hshaped
  exact hshaped.2.nonempty rfl

end Entangrid
