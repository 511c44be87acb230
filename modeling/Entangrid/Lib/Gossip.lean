import Mathlib.Data.Set.Basic
import Mathlib.Order.Basic

/-!
# Gossip of values that only grow

Each of some parties holds a value of an order, and values only grow with time. Parties hand messages
out and take messages in. A party has heard of another if a chain of messages, each taken in before
the next was handed out, leads from the start of the other to it (`Heard`).

* `Heard.le`: where taking a message in lifts a party to the value its author had when it handed the
  message out, a party that has heard of another has at least the value the other started with.
* `Heard.agree`: once all have heard of all, and nobody is beyond all starting values, all values are
  equal.
-/

namespace Gossip

variable {ι μ V : Type*}

section
variable (tells takes : ℕ → ι → μ → Prop)

/-- At a time, a party has heard of another since time 0: `tells t i m` and `takes t i m` say that `i`
hands out, or takes in, `m` between `t` and `t + 1`. -/
inductive Heard : ℕ → ι → ι → Prop
  | self (i : ι) : Heard 0 i i
  | stay {t : ℕ} {i j : ι} (h : Heard t i j) : Heard (t + 1) i j
  | hear {t₀ t : ℕ} {i j k : ι} {m : μ} (hbefore : t₀ ≤ t) (htell : tells t₀ k m)
      (htake : takes t i m) (h : Heard t₀ k j) : Heard (t + 1) i j

/-- Until `T` values only grow, and whoever takes a message in is lifted to its author's value. -/
structure Lifts [Preorder V] (value : ℕ → ι → V) (T : ℕ) : Prop where
  grows : ∀ t < T, ∀ i, value t i ≤ value (t + 1) i
  passes : ∀ t < T, ∀ t₀ ≤ t, ∀ i k m, tells t₀ k m → takes t i m → value t₀ k ≤ value (t + 1) i

end

variable {tells takes : ℕ → ι → μ → Prop} {T t : ℕ} {i j : ι}

/-- **Who is heard of is caught up with.** -/
theorem Heard.le [Preorder V] {value : ℕ → ι → V} (hlifts : Lifts tells takes value T) (ht : t ≤ T)
    (h : Heard tells takes t i j) : value 0 j ≤ value t i := by
  induction h with
  | self i => exact le_refl _
  | stay _ ih => exact (ih (by omega)).trans (hlifts.grows _ ht _)
  | hear hbefore htell htake _ ih =>
    exact (ih (by omega)).trans (hlifts.passes _ ht _ hbefore _ _ _ htell htake)

/-- **All agree** who have heard of each other, as long as nobody is beyond all starting values. -/
theorem Heard.agree [PartialOrder V] {value : ℕ → ι → V} (hlifts : Lifts tells takes value T)
    {group : Set ι} (hheard : ∀ i ∈ group, ∀ j ∈ group, Heard tells takes T i j)
    (hbound : ∀ i ∈ group, ∃ j ∈ group, value T i ≤ value 0 j) (hi : i ∈ group) (hj : j ∈ group) :
    value T i = value T j := by
  have hle {i j : ι} (hi : i ∈ group) (hj : j ∈ group) : value T i ≤ value T j := by
    obtain ⟨k, hk, hbound⟩ := hbound i hi
    exact hbound.trans (Heard.le hlifts (le_refl T) (hheard j hj k hk))
  exact le_antisymm (hle hi hj) (hle hj hi)

end Gossip
