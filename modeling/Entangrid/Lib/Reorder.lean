import Entangrid.Lib.HashChain
import Mathlib.Data.List.Perm.Basic
import Mathlib.Data.List.Nodup

/-!
# Putting a list back in order

The elements of a list arrive one at a time, in any order and more than once. A receiver hands them on
in the order of the list and holds those that come early.

* `Holds key list seen passed rest held`: elements with the keys `seen` have come, `passed` was handed
  on, `held` waits. One rule for each thing that can happen: an element comes again (`again`), waits
  (`wait`) or is handed on (`hand_on`).
* `Holds.passed_eq`: a receiver that hands on what it can has handed on the list up to the first
  element that has not come.
* `Holds.head_of_parent`: where the list is a hash chain, the element on the tip is the next one.
-/

namespace Reorder

variable {α κ : Type*} [DecidableEq κ] (key : α → κ)

/-- The elements before the first that has not come. -/
def front (list : List α) (seen : List κ) : List α := list.takeWhile (key · ∈ seen)

structure Holds (list : List α) (seen : List κ) (passed rest held : List α) : Prop where
  split : list = passed ++ rest
  came : ∀ a ∈ passed, key a ∈ seen
  held : held.Perm (rest.filter (key · ∈ seen))

variable {key} {list : List α} {seen seen' : List κ} {passed rest held : List α} {a : α}

omit [DecidableEq κ] in
/-- Where the keys differ, the others have other keys. -/
theorem key_ne_of_split {xs ys : List α} {b : α} (hnodup : (list.map key).Nodup)
    (hsplit : list = xs ++ a :: ys) (hb : b ∈ xs ∨ b ∈ ys) : key b ≠ key a := by
  rw [hsplit, List.map_append, List.map_cons] at hnodup
  have hothers := (List.nodup_middle.1 hnodup).notMem
  intro heq
  apply hothers
  rw [← heq, ← List.map_append]
  exact List.mem_map_of_mem (List.mem_append.2 hb)

namespace Holds

theorem start : Holds key list [] [] list [] where
  split := rfl
  came := by simp
  held := by simp

variable (h : Holds key list seen passed rest held)
include h

theorem mem_held : a ∈ held ↔ a ∈ rest ∧ key a ∈ seen := by
  rw [h.held.mem_iff, List.mem_filter, decide_eq_true_iff]

/-- What has come was handed on or waits. -/
theorem mem (ha : a ∈ list) (hseen : key a ∈ seen) : a ∈ passed ∨ a ∈ held := by
  rw [h.split, List.mem_append] at ha
  exact ha.imp_right fun ha => h.mem_held.2 ⟨ha, hseen⟩

/-- What has not come is still to be handed on. -/
theorem mem_rest (ha : a ∈ list) (hnew : key a ∉ seen) : a ∈ rest := by
  rw [h.split, List.mem_append] at ha
  exact ha.resolve_left fun ha => hnew (h.came a ha)

theorem congr (hmem : ∀ k, k ∈ seen ↔ k ∈ seen') : Holds key list seen' passed rest held := by
  refine ⟨h.split, fun b hb => (hmem _).1 (h.came b hb), ?_⟩
  simp only [← hmem]
  exact h.held

theorem again (hseen : key a ∈ seen) : Holds key list (key a :: seen) passed rest held := by
  apply h.congr
  intro k
  rw [List.mem_cons, or_iff_right_of_imp]
  intro hk
  rwa [hk]

section
variable (hnodup : (list.map key).Nodup)
include hnodup

theorem wait (ha : a ∈ rest) (hnew : key a ∉ seen) :
    Holds key list (key a :: seen) passed rest (a :: held) := by
  refine ⟨h.split, fun b hb => List.mem_cons_of_mem _ (h.came b hb), ?_⟩
  -- the element is in the rest once, and nothing else has its key
  obtain ⟨xs, ys, rfl⟩ := List.append_of_mem ha
  have hsplit : list = (passed ++ xs) ++ a :: ys := by rw [h.split, List.append_assoc]
  have hothers (b : α) (hb : b ∈ xs ∨ b ∈ ys) : key b ≠ key a := by
    apply key_ne_of_split hnodup hsplit
    exact hb.imp_left fun hb => List.mem_append_right _ hb
  have hfilter (zs : List α) (hzs : ∀ b ∈ zs, key b ≠ key a) :
      zs.filter (key · ∈ key a :: seen) = zs.filter (key · ∈ seen) := by
    refine List.filter_congr fun b hb => ?_
    simp [hzs b hb]
  have hheld := h.held
  rw [List.filter_append, List.filter_cons_of_neg (by simpa using hnew)] at hheld
  rw [List.filter_append, List.filter_cons_of_pos (by simp), hfilter xs fun b hb => hothers b (.inl hb),
    hfilter ys fun b hb => hothers b (.inr hb)]
  exact (hheld.cons a).trans List.perm_middle.symm

end

/-- The first of the rest is handed on. -/
theorem hand_on {rest' held' : List α} (hrest : rest = a :: rest') (hheld : (a :: held').Perm held) :
    Holds key list seen (passed ++ [a]) rest' held' := by
  subst hrest
  have hseen : key a ∈ seen := (h.mem_held.1 (hheld.subset (by simp))).2
  refine ⟨by rw [h.split, List.append_assoc]; rfl, fun b hb => ?_, ?_⟩
  · rcases List.mem_append.1 hb with hb | hb
    · exact h.came b hb
    · rwa [List.mem_singleton.1 hb]
  · have hperm := hheld.trans h.held
    rw [List.filter_cons_of_pos (by simpa using hseen)] at hperm
    exact hperm.cons_inv

/-- Where the first of the rest has not come, all that could be handed on was. -/
theorem passed_eq (hrest : ∀ a, rest.head? = some a → key a ∉ seen) :
    passed = front key list seen := by
  rw [front, h.split, List.takeWhile_append_of_pos fun a ha => by simpa using h.came a ha]
  cases rest with
  | nil => simp
  | cons a rest =>
    have hnew : key a ∉ seen := hrest a rfl
    simp [hnew]

/-! ## Hash chains -/

section Chain
open HashChain
variable {parent : α → κ} {start : κ} (hlinked : LinkedFrom key parent start list)
include hlinked

theorem linked_rest : LinkedFrom key parent (tipFrom key start passed) rest := by
  rw [h.split, linkedFrom_append] at hlinked
  exact hlinked.2

omit hlinked
variable (hnodup : (start :: list.map key).Nodup)
include hnodup

/-- The tip is none of the blocks to come. -/
theorem tip_ne (ha : a ∈ rest) : tipFrom key start passed ≠ key a := by
  rw [h.split, List.map_append, ← List.cons_append] at hnodup
  apply (List.nodup_append.1 hnodup).2.2
  · exact tipFrom_mem
  · exact List.mem_map_of_mem ha

include hlinked

/-- The first of the rest is the block on the tip. -/
theorem head_of_parent (ha : a ∈ rest) (hparent : parent a = tipFrom key start passed) :
    ∃ rest', rest = a :: rest' := by
  obtain ⟨xs, ys, rfl⟩ := List.append_of_mem ha
  cases xs with
  | nil => exact ⟨ys, rfl⟩
  | cons x xs =>
    -- otherwise the tip would be among the hashes to come
    exfalso
    have hbefore : parent a = tipFrom key (key x) xs := by
      have hrest := h.linked_rest hlinked
      rw [linkedFrom_append] at hrest
      exact hrest.2.1
    have hmem : tipFrom key (key x) xs ∈ (x :: xs).map key := tipFrom_mem
    obtain ⟨b, hb, heq⟩ := List.mem_map.1 hmem
    apply h.tip_ne hnodup (List.mem_append_left _ hb)
    rw [heq, ← hbefore, hparent]

end Chain

end Holds

end Reorder
