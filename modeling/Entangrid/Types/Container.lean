import Entangrid.Lib.Codec
import Entangrid.Types

/-!
# Typed containers

`TypedSignature`, `PublicIdentity` and `SessionPublicIdentity` are three copies of one record: a scheme,
and either bytes or, under the hybrid scheme, components. Their constructors, accessors and
hand-written `Serialize` and `Deserialize` are written once, for a `Container` over any scheme, and each
type takes them at its own scheme, name and check.

`bincode` is a codec for the schemes and one for lengths (`Bincode`), and what it derives from them; a
human-readable format turns a struct into named entries or into a sequence of values (`HumanForm`) and
has values of its own for schemes, byte strings and component lists (`HumanFormat`).
-/

namespace Entangrid

/-- The record the three types share. -/
@[ext] structure Container (S : Type) where
  scheme : S
  bytes : List UInt8
  components : List (S × List UInt8)
deriving DecidableEq

/-- What tells them apart: the hybrid scheme, and the name in error texts. -/
structure ContainerKind (S : Type) where
  hybrid : S
  name : String

/-- `serde`'s errors, and those of the format. -/
inductive DecodeError where
  | custom (text : String)
  | unknownField (name : String)
  | duplicateField (name : String)
  | missingField (name : String)
  | invalidLength (length : Nat)
  | format (detail : String)
deriving DecidableEq

/-! ## Formats -/

/-- `bincode`: how it writes the variant of a scheme and the length of a list. -/
structure Bincode (S : Type) where
  variant : Codec DecodeError S
  length : Codec DecodeError Nat

namespace Bincode

def byte : Codec DecodeError UInt8 where
  encode b := [b]
  decode
    | [] => .error (.format "unexpected end")
    | b :: rest => .ok (b, rest)

variable {S : Type} (B : Bincode S)

/-- `Vec<u8>`. -/
def bytes : Codec DecodeError (List UInt8) := .listOf B.length byte

/-- A struct of a scheme and bytes: a component, and the record before it had components. -/
def schemeAndBytes : Codec DecodeError (S × List UInt8) := .pair B.variant B.bytes

/-- A list of components. -/
def components : Codec DecodeError (List (S × List UInt8)) := .listOf B.length B.schemeAndBytes

end Bincode

/-- The values a human-readable format has for schemes, byte strings and component lists. -/
structure HumanFormat (S V : Type) where
  ofScheme : S → V
  ofBytes : List UInt8 → V
  ofComponents : List (S × List UInt8) → V
  toScheme : V → Except DecodeError S
  toBytes : V → Except DecodeError (List UInt8)
  toComponents : V → Except DecodeError (List (S × List UInt8))

/-- A struct in a human-readable format. -/
inductive HumanForm (V : Type) where
  | map (entries : List (String × V))
  | seq (elements : List V)

/-- An input of a decoder. -/
inductive Encoded (V : Type) where
  | binary (bytes : List UInt8)
  | human (form : HumanForm V)

namespace Container

variable {S : Type}

/-! ## Constructors -/

def single (scheme : S) (bytes : List UInt8) : Container S := { scheme, bytes, components := [] }

section
variable [DecidableEq S] (K : ContainerKind S)

/-- The loop of `try_hybrid`, with the schemes seen so far. -/
def checkComponents (seen : List S) : List (S × List UInt8) → Except String Unit
  | [] => .ok ()
  | component :: rest =>
    if component.1 = K.hybrid then
      .error ("hybrid " ++ K.name ++ " cannot contain a nested hybrid component")
    else if component.1 ∈ seen then
      .error ("hybrid " ++ K.name ++ " cannot contain duplicate component schemes")
    else checkComponents (component.1 :: seen) rest

def tryHybrid (components : List (S × List UInt8)) : Except String (Container S) :=
  if components.isEmpty then .error ("hybrid " ++ K.name ++ " requires at least one component")
  else
    match checkComponents K [] components with
    | .error text => .error text
    | .ok _ => .ok { scheme := K.hybrid, bytes := [], components }

/-- `build_session_public_identity`. -/
def buildChecked (scheme : S) (bytes : List UInt8) (components : List (S × List UInt8)) :
    Except String (Container S) :=
  if scheme = K.hybrid then tryHybrid K components
  else if !components.isEmpty then
    .error ("non-hybrid " ++ K.name ++ " cannot contain hybrid components")
  else .ok (single scheme bytes)

/-- The struct literal of the decoders that check nothing. -/
def buildUnchecked (scheme : S) (bytes : List UInt8) (components : List (S × List UInt8)) :
    Except String (Container S) :=
  .ok { scheme, bytes, components }

/-! ## `Serialize` -/

def serializeBinary (B : Bincode S) (c : Container S) : List UInt8 :=
  let payload := if c.scheme = K.hybrid then B.components.encode c.components else c.bytes
  B.schemeAndBytes.encode (c.scheme, payload)

/-- Two or three fields. -/
def serializeHuman {V : Type} (F : HumanFormat S V) (c : Container S) : List (String × V) :=
  [("scheme", F.ofScheme c.scheme), ("bytes", F.ofBytes c.bytes)] ++
    if c.components.isEmpty then [] else [("components", F.ofComponents c.components)]

/-! ## `Deserialize` -/

section
variable (build : S → List UInt8 → List (S × List UInt8) → Except String (Container S))

/-- `map_err(de::Error::custom)`. -/
def buildOrFail (scheme : S) (bytes : List UInt8) (components : List (S × List UInt8)) :
    Except DecodeError (Container S) :=
  match build scheme bytes components with
  | .error text => .error (.custom text)
  | .ok c => .ok c

def deserializeBinary (B : Bincode S) (input : List UInt8) :
    Except DecodeError (Container S × List UInt8) := do
  let ((scheme, payload), rest) ← B.schemeAndBytes.decode input
  if scheme = K.hybrid then
    let (components, leftover) ← B.components.decode payload
    if !leftover.isEmpty then
      .error (.custom ("hybrid " ++ K.name ++ " payload contained trailing bytes"))
    else
      let c ← buildOrFail build K.hybrid [] components
      .ok (c, rest)
  else
    let c ← buildOrFail build scheme payload []
    .ok (c, rest)

end

/-- What a map visitor has read so far. -/
structure Fields (S : Type) where
  scheme : Option S := none
  bytes : Option (List UInt8) := none
  components : Option (List (S × List UInt8)) := none

section
variable {V : Type} (F : HumanFormat S V)

/-- The loop of `visit_map`. -/
def readFields (fields : Fields S) : List (String × V) → Except DecodeError (Fields S)
  | [] => .ok fields
  | (key, value) :: rest =>
    if key = "scheme" then
      if fields.scheme.isSome then .error (.duplicateField "scheme")
      else do
        let scheme ← F.toScheme value
        readFields { fields with scheme := some scheme } rest
    else if key = "bytes" then
      if fields.bytes.isSome then .error (.duplicateField "bytes")
      else do
        let bytes ← F.toBytes value
        readFields { fields with bytes := some bytes } rest
    else if key = "components" then
      if fields.components.isSome then .error (.duplicateField "components")
      else do
        let components ← F.toComponents value
        readFields { fields with components := some components } rest
    else .error (.unknownField key)

/-- `value.ok_or_else(..)?`. -/
def required {α : Type} (value : Option α) (e : DecodeError) : Except DecodeError α :=
  match value with
  | none => .error e
  | some a => .ok a

variable (build : S → List UInt8 → List (S × List UInt8) → Except String (Container S))

def visitMap (entries : List (String × V)) : Except DecodeError (Container S) := do
  let fields ← readFields F {} entries
  let scheme ← required fields.scheme (.missingField "scheme")
  let bytes ← required fields.bytes (.missingField "bytes")
  buildOrFail build scheme bytes (fields.components.getD [])

/-- Further elements are left to the format. -/
def visitSeq (elements : List V) : Except DecodeError (Container S) := do
  let schemeValue ← required elements[0]? (.invalidLength 0)
  let scheme ← F.toScheme schemeValue
  let bytesValue ← required elements[1]? (.invalidLength 1)
  let bytes ← F.toBytes bytesValue
  let components ←
    match elements[2]? with
    | none => .ok []
    | some value => F.toComponents value
  buildOrFail build scheme bytes components

def deserializeHuman : HumanForm V → Except DecodeError (Container S)
  | .map entries => visitMap F build entries
  | .seq elements => visitSeq F build elements

end

end

end Container

/-! ## The three types -/

/-- One of the types: how its values are containers, and the constructor its decoder ends in. -/
structure ContainerType (T S : Type) extends ContainerKind S where
  toContainer : T → Container S
  ofContainer : Container S → T
  build : S → List UInt8 → List (S × List UInt8) → Except String (Container S)

namespace ContainerType

variable {T S V : Type} [DecidableEq S] (K : ContainerType T S)

def single (scheme : S) (bytes : List UInt8) : T := K.ofContainer (.single scheme bytes)

def tryHybrid (components : List (S × List UInt8)) : Except String T :=
  (Container.tryHybrid K.toContainerKind components).map K.ofContainer

def serializeBinary (B : Bincode S) (t : T) : List UInt8 :=
  (K.toContainer t).serializeBinary K.toContainerKind B

def serializeHuman (F : HumanFormat S V) (t : T) : List (String × V) :=
  (K.toContainer t).serializeHuman F

def deserializeBinary (B : Bincode S) (input : List UInt8) : Except DecodeError (T × List UInt8) := do
  let (c, rest) ← Container.deserializeBinary K.toContainerKind K.build B input
  .ok (K.ofContainer c, rest)

def deserializeHuman (F : HumanFormat S V) (form : HumanForm V) : Except DecodeError T := do
  let c ← Container.deserializeHuman F K.build form
  .ok (K.ofContainer c)

/-- `Deserialize`, for both kinds of formats. -/
def deserialize (B : Bincode S) (F : HumanFormat S V) : Encoded V → Except DecodeError T
  | .binary bytes => do
    let (t, _) ← K.deserializeBinary B bytes
    .ok t
  | .human form => K.deserializeHuman F form

end ContainerType

namespace TypedSignature

def container : ContainerType TypedSignature SignatureScheme where
  hybrid := .hybrid
  name := "signature"
  toContainer s :=
    { scheme := s.scheme, bytes := s.bytes, components := s.components.map fun c => (c.scheme, c.bytes) }
  ofContainer c :=
    { scheme := c.scheme, bytes := c.bytes, components := c.components.map fun (s, b) => ⟨s, b⟩ }
  build := Container.buildUnchecked

def single (scheme : SignatureScheme) (bytes : List UInt8) : TypedSignature := { scheme, bytes }

def asSingleBytes (s : TypedSignature) : Option (List UInt8) :=
  if s.scheme = .hybrid then none else some s.bytes

def componentBytes (s : TypedSignature) (scheme : SignatureScheme) : Option (List UInt8) :=
  if s.scheme = scheme ∧ s.scheme ≠ .hybrid then some s.bytes
  else (s.components.find? (·.scheme == scheme)).map (·.bytes)

end TypedSignature

namespace PublicIdentity

def container : ContainerType PublicIdentity PublicKeyScheme where
  hybrid := .hybrid
  name := "public identity"
  toContainer i :=
    { scheme := i.scheme, bytes := i.bytes, components := i.components.map fun c => (c.scheme, c.bytes) }
  ofContainer c :=
    { scheme := c.scheme, bytes := c.bytes, components := c.components.map fun (s, b) => ⟨s, b⟩ }
  build := Container.buildUnchecked

def single (scheme : PublicKeyScheme) (bytes : List UInt8) : PublicIdentity := { scheme, bytes }

def asSingleBytes (i : PublicIdentity) : Option (List UInt8) :=
  if i.scheme = .hybrid then none else some i.bytes

def componentBytes (i : PublicIdentity) (scheme : PublicKeyScheme) : Option (List UInt8) :=
  if i.scheme = scheme ∧ i.scheme ≠ .hybrid then some i.bytes
  else (i.components.find? (·.scheme == scheme)).map (·.bytes)

end PublicIdentity

namespace SessionPublicIdentity

def kind : ContainerKind SessionKeyScheme := ⟨.hybrid, "session public identity"⟩

/-- The only one whose decoder ends in the checks of the constructors. -/
def container : ContainerType SessionPublicIdentity SessionKeyScheme where
  toContainerKind := kind
  toContainer i :=
    { scheme := i.scheme, bytes := i.bytes, components := i.components.map fun c => (c.scheme, c.bytes) }
  ofContainer c :=
    { scheme := c.scheme, bytes := c.bytes, components := c.components.map fun (s, b) => ⟨s, b⟩ }
  build := Container.buildChecked kind

/-- Asserts that the scheme is not the hybrid one. -/
def single (scheme : SessionKeyScheme) (bytes : List UInt8) : SessionPublicIdentity :=
  { scheme, bytes }

def asSingleBytes (i : SessionPublicIdentity) : Option (List UInt8) :=
  if i.scheme = .hybrid then none else some i.bytes

def componentBytes (i : SessionPublicIdentity) (scheme : SessionKeyScheme) : Option (List UInt8) :=
  if i.scheme = scheme ∧ i.scheme ≠ .hybrid then some i.bytes
  else (i.components.find? (·.scheme == scheme)).map (·.bytes)

end SessionPublicIdentity

end Entangrid
