import Mathlib.Data.List.Range

/-!
# Catching up with a target

A cursor follows a sequence of numbers: at each target it visits the numbers after it, up to the
target, and moves there. At a target behind it, it visits that number alone and moves back. While no
target is behind the cursor, a run visits one interval.

* `run_eq`: the visits of a run whose targets never decrease and are not behind the cursor.
* `exists_lt_of_behind`: a target behind the cursor makes the run go back.
-/

namespace CatchUp

variable {cursor : Option Nat} {target c : Nat} {targets : List Nat}

/-- The first number after the cursor. -/
def next (cursor : Option Nat) : Nat := cursor.elim 0 (· + 1)

@[simp] theorem next_none : next none = 0 := rfl

@[simp] theorem next_some : next (some c) = c + 1 := rfl

/-- The numbers visited at a target. -/
def visit (cursor : Option Nat) (target : Nat) : List Nat :=
  if cursor = some target then []
  else if target < next cursor then [target]
  else List.range' (next cursor) (target + 1 - next cursor)

/-- The numbers visited at the targets, one after the other. -/
def run : Option Nat → List Nat → List Nat
  | _, [] => []
  | cursor, target :: targets => visit cursor target ++ run (some target) targets

/-- Those of them that are their target. -/
def hits : Option Nat → List Nat → List Nat
  | _, [] => []
  | cursor, target :: targets =>
    (visit cursor target).filter (· == target) ++ hits (some target) targets

theorem visit_of_le (h : next cursor ≤ target + 1) :
    visit cursor target = List.range' (next cursor) (target + 1 - next cursor) := by
  unfold visit
  split_ifs with hat hbehind
  · subst hat
    simp
  · exfalso
    cases cursor with
    | none => exact absurd hbehind (Nat.not_lt_zero target)
    | some c =>
      simp only [next_some, Option.some.injEq] at h hat hbehind
      omega
  · rfl

theorem visit_of_lt (h : target < c) : visit (some c) target = [target] := by
  have hne : c ≠ target := by omega
  have hlt : target < c + 1 := by omega
  simp [visit, hne, hlt]

/-- Where the cursor stands after a target: at the last number visited, or where it was. -/
theorem getLast?_visit_or : (visit cursor target).getLast?.or cursor = some target := by
  unfold visit
  split_ifs with hat hbehind
  · simpa using hat
  · simp
  · rw [List.getLast?_range', if_neg (by omega), Option.some_or]
    congr 1
    omega

/-- After a run the cursor is at the last target. -/
theorem getLast?_run_or : (run cursor targets).getLast?.or cursor = targets.getLast?.or cursor := by
  induction targets generalizing cursor with
  | nil => rfl
  | cons target targets ih =>
    rw [run, List.getLast?_append, Option.or_assoc, getLast?_visit_or, ih, List.getLast?_cons]
    cases targets.getLast? <;> rfl

theorem hits_sublist : (hits cursor targets).Sublist (run cursor targets) := by
  induction targets generalizing cursor with
  | nil => exact List.Sublist.slnil
  | cons target targets ih => exact List.filter_sublist.append ih

/-- **A run visits an interval.** With the targets in order and not behind the cursor, it visits the
numbers after the cursor up to the last target. -/
theorem run_eq (hsorted : targets.Pairwise (· ≤ ·)) (hcursor : ∀ x ∈ targets, next cursor ≤ x + 1)
    {last : Nat} (hlast : targets.getLast? = some last) :
    run cursor targets = List.range' (next cursor) (last + 1 - next cursor) := by
  induction targets generalizing cursor with
  | nil => exact absurd hlast (by simp)
  | cons target targets ih =>
    obtain ⟨hle, hsorted⟩ := List.pairwise_cons.1 hsorted
    have htarget := hcursor target List.mem_cons_self
    rw [run, visit_of_le htarget]
    cases hrest : targets.getLast? with
    | none =>
      rw [List.getLast?_eq_none_iff] at hrest
      subst hrest
      obtain rfl : target = last := by simpa using hlast
      exact List.append_nil _
    | some last' =>
      obtain rfl : last' = last := by
        rw [List.getLast?_cons, hrest] at hlast
        simpa using hlast
      have hmono := hle _ (List.mem_of_getLast? hrest)
      have hnext : ∀ x ∈ targets, next (some target) ≤ x + 1 :=
        fun x hx => Nat.succ_le_succ (hle x hx)
      rw [ih hsorted hnext hrest, next_some]
      have hjoin : target + 1 = next cursor + (target + 1 - next cursor) := by omega
      have hlength : (target + 1 - next cursor) + (last' + 1 - (target + 1)) =
          last' + 1 - next cursor := by
        omega
      rw [← hlength, ← List.range'_append_1, ← hjoin]

/-- A target behind the cursor makes the run visit something before it. -/
theorem exists_lt_of_behind (hsorted : targets.Pairwise (· ≤ ·)) (h : ∃ x ∈ targets, x < c) :
    ∃ x ∈ run (some c) targets, x < c := by
  obtain ⟨x, hx, hlt⟩ := h
  cases targets with
  | nil => exact absurd hx (by simp)
  | cons target targets =>
    have hhead : target < c := by
      rcases List.mem_cons.1 hx with rfl | hx
      · exact hlt
      · exact ((List.pairwise_cons.1 hsorted).1 x hx).trans_lt hlt
    refine ⟨target, ?_, hhead⟩
    rw [run, visit_of_lt hhead]
    exact List.mem_append_left _ List.mem_cons_self

end CatchUp
