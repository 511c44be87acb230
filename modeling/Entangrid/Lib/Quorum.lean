import Mathlib.Data.Finset.Card
import Mathlib.Tactic.Linarith

/-!
# Quorums

Counting voters: the distinct elements of a list with repetitions, and the overlap of two subsets
of `n` elements that each have more than two thirds of them.
-/

namespace Quorum

variable {α : Type*} [DecidableEq α]

/-- How many elements of a list occur in it again. -/
def repeats : List α → Nat
  | [] => 0
  | x :: xs => (if x ∈ xs then 1 else 0) + repeats xs

theorem repeats_add_card (xs : List α) : repeats xs + xs.toFinset.card = xs.length := by
  induction xs with
  | nil => rfl
  | cons x xs ih =>
    by_cases hx : x ∈ xs
    · rw [List.toFinset_cons, Finset.insert_eq_of_mem (by simpa using hx)]
      simp only [repeats, if_pos hx, List.length_cons]
      omega
    · rw [List.toFinset_cons, Finset.card_insert_of_notMem (by simpa using hx)]
      simp only [repeats, if_neg hx, List.length_cons]
      omega

/-- The least number of `n` voters that is more than two thirds. -/
def threshold (n : Nat) : Nat := if n = 0 then 0 else n * 2 / 3 + 1

/-- Two sets of at least `threshold n` of at most `n` voters share more than a third of them. -/
theorem lt_three_mul_card_inter {n : Nat} (hn : 0 < n) {voters A B : Finset α}
    (hvoters : voters.card ≤ n) (hA : A ⊆ voters) (hB : B ⊆ voters)
    (hcA : threshold n ≤ A.card) (hcB : threshold n ≤ B.card) : n < 3 * (A ∩ B).card := by
  have hunion : (A ∪ B).card ≤ n := (Finset.card_le_card (Finset.union_subset hA hB)).trans hvoters
  have hsum := Finset.card_union_add_card_inter A B
  simp only [threshold, if_neg hn.ne'] at hcA hcB
  omega

end Quorum
