import Mathlib.Data.List.Basic
import Mathlib.Logic.Function.Basic

/-!
# Counting windows

A rate limiter that counts the calls it admits of each class. A call that comes `width` or more after
the window was started, or before any was (a start of zero), renews it: all counts are zero again. The
call is admitted if the count of its class is below the limit of the class.

* `admitted_le_of_no_renewal`: from one renewal to the next, at most the limit of a class is admitted.
* `admits_iff`: whether a call is admitted depends on the calls of its own class since the renewal.
* `admitted_within_le`: in an interval shorter than `width`, at most twice the limit is admitted.
-/

universe u

/-- When the window was started, and how many calls of each class it has admitted. -/
structure RateWindow (κ : Type u) where
  startedAt : Nat
  used : κ → Nat

namespace RateWindow

/-- What became of a call. -/
structure Answer (κ : Type u) where
  cls : κ
  time : Nat
  renews : Bool
  admitted : Bool

variable {κ : Type u}

section
variable (width : Nat) (limit : κ → Nat)

def renewsAt (w : RateWindow κ) (t : Nat) : Bool :=
  decide (w.startedAt = 0) || decide (width ≤ t - w.startedAt)

/-- The window a call at `t` is counted in. -/
def renewed (w : RateWindow κ) (t : Nat) : RateWindow κ :=
  if w.renewsAt width t then { startedAt := t, used := fun _ => 0 } else w

def admits (w : RateWindow κ) (c : κ) (t : Nat) : Bool :=
  decide ((w.renewed width t).used c < limit c)

def answer (w : RateWindow κ) (c : κ) (t : Nat) : Answer κ :=
  { cls := c, time := t, renews := w.renewsAt width t, admitted := w.admits width limit c t }

end

theorem renewed_of_renews {w : RateWindow κ} {width t : Nat} (h : w.renewsAt width t = true) :
    w.renewed width t = { startedAt := t, used := fun _ => 0 } := by simp [renewed, h]

theorem renewed_of_not {w : RateWindow κ} {width t : Nat} (h : w.renewsAt width t = false) :
    w.renewed width t = w := by simp [renewed, h]

variable [DecidableEq κ]

/-- An admitted call of the class. -/
def Answer.counts (a : Answer κ) (c : κ) : Bool := a.admitted && a.cls == c

/-- How many calls of the class were admitted. -/
def admitted (c : κ) (answers : List (Answer κ)) : Nat := answers.countP (·.counts c)

def Answer.within (a : Answer κ) (since till : Nat) : Bool := decide (since ≤ a.time ∧ a.time ≤ till)

/-- How many of them between two times. -/
def admittedWithin (c : κ) (since till : Nat) (answers : List (Answer κ)) : Nat :=
  answers.countP fun a => a.counts c && a.within since till

section
variable (width : Nat) (limit : κ → Nat)

/-- The window after a call. -/
def next (w : RateWindow κ) (c : κ) (t : Nat) : RateWindow κ :=
  let r := w.renewed width t
  if w.admits width limit c t then { r with used := Function.update r.used c (r.used c + 1) } else r

/-- The answers to calls that come one after the other. -/
def answers : RateWindow κ → List (κ × Nat) → List (Answer κ)
  | _, [] => []
  | w, (c, t) :: calls => w.answer width limit c t :: answers (w.next width limit c t) calls

/-- The window they leave. -/
def after : RateWindow κ → List (κ × Nat) → RateWindow κ
  | w, [] => w
  | w, (c, t) :: calls => after (w.next width limit c t) calls

end

variable {width : Nat} {limit : κ → Nat} {w : RateWindow κ} {c d : κ} {t : Nat}
variable {calls : List (κ × Nat)}

/-! ## One call -/

theorem admitted_cons {a : Answer κ} {as : List (Answer κ)} :
    admitted c (a :: as) = admitted c as + if a.counts c then 1 else 0 := by
  simp [admitted, List.countP_cons]

@[simp] theorem next_startedAt :
    (w.next width limit d t).startedAt = (w.renewed width t).startedAt := by
  unfold next
  dsimp only
  split_ifs <;> rfl

/-- A call adds to the count of its own class, if it is admitted, and to no other. -/
theorem next_used : (w.next width limit d t).used c =
    (w.renewed width t).used c + if (w.answer width limit d t).counts c then 1 else 0 := by
  unfold next
  by_cases hadmits : w.admits width limit d t = true
  · by_cases hcd : d = c
    · subst hcd
      simp [hadmits, answer, Answer.counts]
    · simp [hadmits, answer, Answer.counts, hcd, Function.update_of_ne (Ne.symm hcd)]
  · simp [hadmits, answer, Answer.counts]

variable (width limit w) in
/-- A count only grows up to the limit of its class. -/
theorem next_used_le (c d : κ) (t : Nat) :
    (w.next width limit d t).used c ≤ max ((w.renewed width t).used c) (limit c) := by
  rw [next_used]
  split_ifs with hcounts
  · simp only [Answer.counts, answer, admits, Bool.and_eq_true, decide_eq_true_eq,
      beq_iff_eq] at hcounts
    obtain ⟨hlt, hcd⟩ := hcounts
    subst hcd
    omega
  · omega

/-! ## Stretches of calls -/

variable (width limit w) in
theorem answers_append (xs ys : List (κ × Nat)) :
    w.answers width limit (xs ++ ys) =
      w.answers width limit xs ++ (w.after width limit xs).answers width limit ys := by
  induction xs generalizing w with
  | nil => rfl
  | cons x xs ih => simp [answers, after, ih]

variable (width limit w calls) in
theorem length_answers : (w.answers width limit calls).length = calls.length := by
  induction calls generalizing w with
  | nil => rfl
  | cons x calls ih => simp [answers, ih]

/-- A stretch of the answers are those to a stretch of the calls. -/
theorem answers_eq_append {as bs : List (Answer κ)} (h : w.answers width limit calls = as ++ bs) :
    ∃ xs ys, calls = xs ++ ys ∧ w.answers width limit xs = as ∧
      (w.after width limit xs).answers width limit ys = bs := by
  have hsplit := answers_append width limit w (calls.take as.length) (calls.drop as.length)
  rw [List.take_append_drop, h] at hsplit
  have hlength : as.length ≤ calls.length := by
    rw [← length_answers width limit w calls, h]
    simp
  obtain ⟨has, hbs⟩ := List.append_inj hsplit (by rw [length_answers]; simp [hlength])
  exact ⟨_, _, (List.take_append_drop _ _).symm, has.symm, hbs.symm⟩

/-- While nothing renews the window its counts grow by the calls it admits. -/
theorem used_after (h : ∀ a ∈ w.answers width limit calls, a.renews = false) :
    (w.after width limit calls).used c = w.used c + admitted c (w.answers width limit calls) := by
  induction calls generalizing w with
  | nil => rfl
  | cons x calls ih =>
    obtain ⟨d, t⟩ := x
    have hrenews : w.renewsAt width t = false := h _ List.mem_cons_self
    have hrest := ih (w := w.next width limit d t) fun a ha => h a (List.mem_cons_of_mem _ ha)
    simp only [after, answers, admitted_cons, hrest, next_used, renewed_of_not hrenews]
    omega

theorem used_after_le (h : ∀ a ∈ w.answers width limit calls, a.renews = false) :
    (w.after width limit calls).used c ≤ max (w.used c) (limit c) := by
  induction calls generalizing w with
  | nil => exact Nat.le_max_left _ _
  | cons x calls ih =>
    obtain ⟨d, t⟩ := x
    have hrenews : w.renewsAt width t = false := h _ List.mem_cons_self
    have hnext := next_used_le width limit w c d t
    have hrest := ih (w := w.next width limit d t) fun a ha => h a (List.mem_cons_of_mem _ ha)
    rw [renewed_of_not hrenews] at hnext
    simp only [after]
    omega

/-- What a stretch admits whose first call alone may renew the window. -/
theorem admitted_cons_eq (h : ∀ a ∈ (w.next width limit d t).answers width limit calls,
    a.renews = false) :
    (w.renewed width t).used c + admitted c (w.answers width limit ((d, t) :: calls)) =
      (w.after width limit ((d, t) :: calls)).used c := by
  simp only [answers, after, admitted_cons, used_after h, next_used]
  omega

/-- **From one renewal to the next, at most the limit of a class is admitted.** -/
theorem admitted_le_of_no_renewal {as stretch bs : List (Answer κ)}
    (hanswers : w.answers width limit calls = as ++ stretch ++ bs)
    (h : ∀ a ∈ stretch.tail, a.renews = false) : admitted c stretch ≤ limit c := by
  rw [List.append_assoc] at hanswers
  obtain ⟨xs, ys, -, -, hrest⟩ := answers_eq_append hanswers
  obtain ⟨zs, _, -, hstretch, -⟩ := answers_eq_append hrest
  subst hstretch
  cases zs with
  | nil => exact Nat.zero_le _
  | cons z zs =>
    obtain ⟨d, t⟩ := z
    have hcount := admitted_cons_eq (c := c) h
    have hrest := used_after_le (c := c) h
    have hnext := next_used_le width limit (w.after width limit xs) c d t
    simp only [after] at hcount
    omega

/-- **A class only uses its own limit.** Since the window was renewed, a call is admitted if and only
if fewer calls of its class were admitted than its limit. -/
theorem admitted_iff {as rest bs : List (Answer κ)} {first a : Answer κ}
    (hanswers : w.answers width limit calls = as ++ first :: rest ++ a :: bs)
    (hfirst : first.renews = true) (hrest : ∀ b ∈ rest, b.renews = false) (ha : a.renews = false) :
    a.admitted = true ↔ admitted a.cls (first :: rest) < limit a.cls := by
  rw [List.append_assoc] at hanswers
  obtain ⟨xs, ys, -, -, hys⟩ := answers_eq_append hanswers
  obtain ⟨zs, vs, -, hzs, hvs⟩ := answers_eq_append hys
  cases zs with
  | nil => cases hzs
  | cons z zs =>
    obtain ⟨d, t⟩ := z
    cases vs with
    | nil => cases hvs
    | cons v vs =>
      obtain ⟨e, s⟩ := v
      obtain ⟨rfl, rfl⟩ := List.cons.inj hzs
      obtain ⟨rfl, -⟩ := List.cons.inj hvs
      have hcount := admitted_cons_eq (c := e) hrest
      have hfresh : ((w.after width limit xs).renewed width t).used e = 0 := by
        rw [renewed_of_renews hfirst]
      simp only [answers] at hcount
      simp only [answer, admits, renewed_of_not ha, decide_eq_true_eq] at hcount ⊢
      omega

theorem admitted_of_renews (hlimit : ∀ c, 0 < limit c) {a : Answer κ}
    (ha : a ∈ w.answers width limit calls) (hrenews : a.renews = true) : a.admitted = true := by
  induction calls generalizing w with
  | nil => cases ha
  | cons x calls ih =>
    rcases List.mem_cons.1 ha with rfl | ha
    · simp [answer, admits, renewed_of_renews hrenews, hlimit]
    · exact ih ha

/-! ## Intervals -/

/-- What comes after the interval does not count. -/
theorem admittedWithin_of_lt {since till : Nat} (h : ∀ call ∈ calls, till < call.2) :
    admittedWithin c since till (w.answers width limit calls) = 0 := by
  induction calls generalizing w with
  | nil => rfl
  | cons x calls ih =>
    have hx := h x List.mem_cons_self
    have hrest := ih (w := w.next width limit x.1 x.2) fun call hcall =>
      h call (List.mem_cons_of_mem _ hcall)
    unfold admittedWithin at hrest ⊢
    have hafter : (w.answer width limit x.1 x.2).within since till = false :=
      decide_eq_false fun hwithin => Nat.not_le.2 hx hwithin.2
    rw [answers, List.countP_cons, hrest, hafter, Bool.and_false]
    rfl

theorem admittedWithin_cons_le (c : κ) (since till : Nat) (a : Answer κ) (as : List (Answer κ)) :
    admittedWithin c since till (a :: as) ≤
      admittedWithin c since till as + if a.counts c then 1 else 0 := by
  unfold admittedWithin
  rw [List.countP_cons]
  cases a.counts c <;> cases a.within since till <;> simp

section
variable {since till : Nat}

variable (limit) in
/-- In a window that was started within the interval, only what is left of the limit. -/
theorem admittedWithin_of_started (hpos : 0 < width) (hwidth : till < since + width)
    (hsorted : calls.Pairwise fun x y => x.2 ≤ y.2) (hstarted : since ≤ w.startedAt)
    (hne : w.startedAt ≠ 0) :
    admittedWithin c since till (w.answers width limit calls) + w.used c ≤
      max (w.used c) (limit c) := by
  induction calls generalizing w with
  | nil =>
    show 0 + w.used c ≤ _
    omega
  | cons x calls ih =>
    obtain ⟨d, t⟩ := x
    obtain ⟨hle, hsorted⟩ := List.pairwise_cons.1 hsorted
    by_cases ht : t ≤ till
    · have hrenews : w.renewsAt width t = false := by
        simp only [renewsAt, Bool.or_eq_false_iff, decide_eq_false_iff_not]
        omega
      have hsame := renewed_of_not hrenews
      have hrest := ih (w := w.next width limit d t) hsorted (by simpa [hsame] using hstarted)
        (by simpa [hsame] using hne)
      have hnext := next_used_le width limit w c d t
      have hhead := admittedWithin_cons_le c since till (w.answer width limit d t)
        ((w.next width limit d t).answers width limit calls)
      rw [next_used] at hrest hnext
      rw [hsame] at hrest hnext
      rw [answers]
      omega
    · have hlate : ∀ call ∈ (d, t) :: calls, till < call.2 := by
        intro call hcall
        rcases List.mem_cons.1 hcall with rfl | hcall
        · exact Nat.not_le.1 ht
        · exact Nat.lt_of_lt_of_le (Nat.not_le.1 ht) (hle call hcall)
      rw [admittedWithin_of_lt hlate]
      omega

variable (limit) in
/-- From the beginning of the interval on, what is left of the limit and one limit more. -/
theorem admittedWithin_of_since (hpos : 0 < width) (hwidth : till < since + width)
    (hsorted : calls.Pairwise fun x y => x.2 ≤ y.2) (hsince : ∀ call ∈ calls, since ≤ call.2)
    (hne : ∀ call ∈ calls, call.2 ≠ 0) :
    admittedWithin c since till (w.answers width limit calls) + w.used c ≤
      max (w.used c) (limit c) + limit c := by
  induction calls generalizing w with
  | nil =>
    show 0 + w.used c ≤ _
    omega
  | cons x calls ih =>
    obtain ⟨d, t⟩ := x
    have hsorted' := (List.pairwise_cons.1 hsorted).2
    have hnext := next_used_le width limit w c d t
    have hhead := admittedWithin_cons_le c since till (w.answer width limit d t)
      ((w.next width limit d t).answers width limit calls)
    rw [answers]
    cases hrenews : w.renewsAt width t with
    | true =>
      -- the window this call starts lasts to the end of the interval
      have hfresh := renewed_of_renews hrenews
      have hrest := admittedWithin_of_started limit (w := w.next width limit d t) (c := c) hpos hwidth
        hsorted' (by simpa [hfresh] using hsince _ List.mem_cons_self)
        (by simpa [hfresh] using hne _ List.mem_cons_self)
      rw [next_used] at hrest hnext
      rw [hfresh] at hrest hnext
      dsimp only at hrest hnext
      omega
    | false =>
      have hrest := ih (w := w.next width limit d t) hsorted'
        (fun call hcall => hsince call (List.mem_cons_of_mem _ hcall))
        fun call hcall => hne call (List.mem_cons_of_mem _ hcall)
      rw [next_used] at hrest hnext
      rw [renewed_of_not hrenews] at hrest hnext
      omega

/-- **In an interval shorter than the window, at most twice the limit is admitted.** -/
theorem admitted_within_le (hpos : 0 < width) (hwidth : till < since + width)
    (hsorted : calls.Pairwise fun x y => x.2 ≤ y.2) (hne : ∀ call ∈ calls, call.2 ≠ 0) :
    admittedWithin c since till (w.answers width limit calls) ≤ 2 * limit c := by
  induction calls generalizing w with
  | nil => exact Nat.zero_le _
  | cons x calls ih =>
    obtain ⟨d, t⟩ := x
    obtain ⟨hle, hsorted'⟩ := List.pairwise_cons.1 hsorted
    by_cases ht : since ≤ t
    · have hsince : ∀ call ∈ (d, t) :: calls, since ≤ call.2 := by
        intro call hcall
        rcases List.mem_cons.1 hcall with rfl | hcall
        · exact ht
        · exact Nat.le_trans ht (hle call hcall)
      have := admittedWithin_of_since limit (w := w) (c := c) hpos hwidth hsorted hsince hne
      omega
    · have hrest := ih (w := w.next width limit d t) hsorted' fun call hcall =>
        hne call (List.mem_cons_of_mem _ hcall)
      have hbefore : (w.answer width limit d t).within since till = false :=
        decide_eq_false fun hwithin => ht hwithin.1
      unfold admittedWithin at hrest ⊢
      rw [answers, List.countP_cons, hbefore, Bool.and_false]
      exact hrest

end

end RateWindow
