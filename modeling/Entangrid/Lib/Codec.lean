import Mathlib.Logic.Function.Basic

/-!
# Prefix codecs

An encoding of values as bytes that is read back from the front of an input, whatever follows it.

* `Codec.Lawful`: a value is read back from its encoding, and what follows it is left over. So the
  encoding is injective and no encoding is a prefix of another (`Lawful.encode_append_inj`).
* `pair`, `listOf`, `embed`: codecs of pairs, of counted lists, and of values that embed in others;
  each is lawful if its parts are.
-/

universe u v

/-- An encoder, and a decoder that hands back what it did not consume. -/
structure Codec (ε α : Type u) where
  encode : α → List UInt8
  decode : List UInt8 → Except ε (α × List UInt8)

namespace Codec

variable {ε α β : Type u}

structure Lawful (c : Codec ε α) : Prop where
  decode_encode : ∀ (a : α) (rest : List UInt8), c.decode (c.encode a ++ rest) = .ok (a, rest)

namespace Lawful

variable {c : Codec ε α} (h : c.Lawful)
include h

theorem decode_encode_all (a : α) : c.decode (c.encode a) = .ok (a, []) := by
  simpa using h.decode_encode a []

/-- No encoding is a prefix of another. -/
theorem encode_append_inj {a b : α} {rest rest' : List UInt8}
    (heq : c.encode a ++ rest = c.encode b ++ rest') : a = b ∧ rest = rest' := by
  have hdecode := h.decode_encode a rest
  rw [heq, h.decode_encode b rest'] at hdecode
  obtain ⟨rfl, rfl⟩ := Prod.mk.inj (Except.ok.inj hdecode)
  exact ⟨rfl, rfl⟩

theorem encode_injective : Function.Injective c.encode := by
  intro a b heq
  have happend : c.encode a ++ [] = c.encode b ++ [] := by rw [heq]
  exact (h.encode_append_inj happend).1

end Lawful

/-! ## Pairs -/

def pair (c : Codec ε α) (d : Codec ε β) : Codec ε (α × β) where
  encode p := c.encode p.1 ++ d.encode p.2
  decode input :=
    match c.decode input with
    | .error e => .error e
    | .ok (a, rest) =>
      match d.decode rest with
      | .error e => .error e
      | .ok (b, rest) => .ok ((a, b), rest)

theorem Lawful.pair {c : Codec ε α} {d : Codec ε β} (hc : c.Lawful) (hd : d.Lawful) :
    (c.pair d).Lawful where
  decode_encode p rest := by
    simp only [Codec.pair, List.append_assoc, hc.decode_encode, hd.decode_encode]

/-! ## Counted lists -/

/-- Read a number of values. -/
def decodeMany (c : Codec ε α) : Nat → List UInt8 → Except ε (List α × List UInt8)
  | 0, input => .ok ([], input)
  | n + 1, input =>
    match c.decode input with
    | .error e => .error e
    | .ok (a, rest) =>
      match decodeMany c n rest with
      | .error e => .error e
      | .ok (as, rest) => .ok (a :: as, rest)

/-- The number of elements, and then the elements. -/
def listOf {ε α : Type} (count : Codec ε Nat) (c : Codec ε α) : Codec ε (List α) where
  encode as := count.encode as.length ++ as.flatMap c.encode
  decode input :=
    match count.decode input with
    | .error e => .error e
    | .ok (n, rest) => c.decodeMany n rest

theorem Lawful.decodeMany {c : Codec ε α} (hc : c.Lawful) (as : List α) (rest : List UInt8) :
    c.decodeMany as.length (as.flatMap c.encode ++ rest) = .ok (as, rest) := by
  induction as with
  | nil => rfl
  | cons a as ih =>
    simp only [List.length_cons, List.flatMap_cons, List.append_assoc, Codec.decodeMany,
      hc.decode_encode, ih]

theorem Lawful.listOf {ε α : Type} {count : Codec ε Nat} {c : Codec ε α} (hcount : count.Lawful)
    (hc : c.Lawful) : (listOf count c).Lawful where
  decode_encode as rest := by
    simp only [Codec.listOf, List.append_assoc, hcount.decode_encode, hc.decodeMany]

/-! ## Embedded values -/

/-- A codec of values that are encoded as others. -/
def embed (c : Codec ε β) (f : α → β) (g : β → α) : Codec ε α where
  encode a := c.encode (f a)
  decode input :=
    match c.decode input with
    | .error e => .error e
    | .ok (b, rest) => .ok (g b, rest)

theorem Lawful.embed {c : Codec ε β} (hc : c.Lawful) {f : α → β} {g : β → α}
    (hgf : ∀ a, g (f a) = a) : (c.embed f g).Lawful where
  decode_encode a rest := by
    simp only [Codec.embed, hc.decode_encode, hgf]

end Codec
