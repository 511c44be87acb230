import Mathlib.Logic.Relation
import Mathlib.Order.Defs.Unbundled

/-!
# Procedures over a state, with errors

A `Proc σ ε α` is a method on a mutable state `σ`: it returns a value, fails with an error, panics,
or runs out of fuel. An error keeps the state reached so far, as a `Result` returned half way
through a method does; a panic or an exhausted fuel ends the run and cannot be caught.

* `Moves R m s`: wherever `m` started at `s` stops, with a value or an error, it is at a state
  related to `s`. For a preorder `R` there is one rule per way of building procedures; with `R` the
  closure of a step relation they turn the text of a method into a chain of its steps, with
  `R s s' := f s = f s'` they show that a method keeps a part of the state.
* `Always R m`: `m` moves along `R` from every state, with the same rules.
-/

universe u

/-- The result of running a procedure. -/
inductive Out (σ ε α : Type u) where
  | ok (a : α) (s : σ)
  | err (e : ε) (s : σ)
  | panic
  | outOfFuel

namespace Out

variable {σ ε α : Type u}

/-- The state it ended in, if it stopped with a value or an error. -/
def state? : Out σ ε α → Option σ
  | ok _ s => some s
  | err _ s => some s
  | panic => none
  | outOfFuel => none

def value? : Out σ ε α → Option α
  | ok a _ => some a
  | _ => none

/-- The error it stopped with. -/
def error? : Out σ ε α → Option ε
  | err e _ => some e
  | _ => none

def isOk : Out σ ε α → Bool
  | ok _ _ => true
  | _ => false

theorem value?_eq_some {o : Out σ ε α} {a : α} : o.value? = some a ↔ ∃ s, o = .ok a s := by
  cases o <;> simp [value?]

theorem error?_eq_some {o : Out σ ε α} {e : ε} : o.error? = some e ↔ ∃ s, o = .err e s := by
  cases o <;> simp [error?]

/-- The state is related to `s` if there is one. -/
def Moved (R : σ → σ → Prop) (s : σ) : Out σ ε α → Prop
  | ok _ s' => R s s'
  | err _ s' => R s s'
  | panic => True
  | outOfFuel => True

theorem Moved.of_state? {R : σ → σ → Prop} {s s' : σ} {o : Out σ ε α} (h : o.Moved R s)
    (hs : o.state? = some s') : R s s' := by
  cases o <;> simp_all [state?, Moved]

theorem Moved.trans {R : σ → σ → Prop} [IsPreorder σ R] {s s' : σ} {o : Out σ ε α} (h : R s s')
    (h' : o.Moved R s') : o.Moved R s := by
  cases o with
  | ok a s'' => exact trans_of R h h'
  | err e s'' => exact trans_of R h h'
  | panic => trivial
  | outOfFuel => trivial

/-- The same ends, seen from another state. -/
theorem Moved.from {R R' : σ → σ → Prop} {s t : σ} {o : Out σ ε α} (h : o.Moved R t)
    (hR : ∀ s', R t s' → R' s s') : o.Moved R' s := by
  cases o with
  | ok a s' => exact hR s' h
  | err e s' => exact hR s' h
  | panic => trivial
  | outOfFuel => trivial

end Out

def Proc (σ ε α : Type u) := σ → Out σ ε α

namespace Proc

variable {σ ε α β : Type u}

def run (m : Proc σ ε α) (s : σ) : Out σ ε α := m s

instance : Monad (Proc σ ε) where
  pure a := fun s => .ok a s
  bind m f := fun s =>
    match m s with
    | .ok a s' => f a s'
    | .err e s' => .err e s'
    | .panic => .panic
    | .outOfFuel => .outOfFuel

/-- The current state. -/
def get : Proc σ ε σ := fun s => .ok s s

def modify (f : σ → σ) : Proc σ ε PUnit := fun s => .ok ⟨⟩ (f s)

def throw (e : ε) : Proc σ ε α := fun s => .err e s

def panic : Proc σ ε α := fun _ => .panic

def outOfFuel : Proc σ ε α := fun _ => .outOfFuel

def ofExcept : Except ε α → Proc σ ε α
  | .ok a => fun s => .ok a s
  | .error e => fun s => .err e s

/-- Run `m`, and hand its error over as a value. -/
def attempt (m : Proc σ ε α) : Proc σ ε (Except ε α) := fun s =>
  match m s with
  | .ok a s' => .ok (.ok a) s'
  | .err e s' => .ok (.error e) s'
  | .panic => .panic
  | .outOfFuel => .outOfFuel

def forEach (xs : List β) (f : β → Proc σ ε PUnit) : Proc σ ε PUnit :=
  match xs with
  | [] => pure ⟨⟩
  | x :: xs => do
    f x
    forEach xs f

/-! ## Running -/

@[simp] theorem run_pure (a : α) (s : σ) : (pure a : Proc σ ε α).run s = .ok a s := rfl

@[simp] theorem run_get (s : σ) : (get : Proc σ ε σ).run s = .ok s s := rfl

@[simp] theorem run_get_bind (f : σ → Proc σ ε α) (s : σ) : (get >>= f).run s = (f s).run s := rfl

@[simp] theorem run_modify (f : σ → σ) (s : σ) :
    (modify f : Proc σ ε PUnit).run s = .ok ⟨⟩ (f s) := rfl

@[simp] theorem run_throw (e : ε) (s : σ) : (throw e : Proc σ ε α).run s = .err e s := rfl

theorem run_bind (m : Proc σ ε α) (f : α → Proc σ ε β) (s : σ) :
    (m >>= f).run s =
      match m.run s with
      | .ok a s' => (f a).run s'
      | .err e s' => .err e s'
      | .panic => .panic
      | .outOfFuel => .outOfFuel := rfl

theorem run_attempt (m : Proc σ ε α) (s : σ) :
    (attempt m).run s =
      match m.run s with
      | .ok a s' => .ok (.ok a) s'
      | .err e s' => .ok (.error e) s'
      | .panic => .panic
      | .outOfFuel => .outOfFuel := rfl

theorem run_bind_of_ok {m : Proc σ ε α} {f : α → Proc σ ε β} {s s' : σ} {a : α}
    (h : m.run s = .ok a s') : (m >>= f).run s = (f a).run s' := by
  rw [run_bind, h]

theorem run_bind_eq_ok {m : Proc σ ε α} {f : α → Proc σ ε β} {s s' : σ} {b : β}
    (h : (m >>= f).run s = .ok b s') : ∃ a s₁, m.run s = .ok a s₁ ∧ (f a).run s₁ = .ok b s' := by
  rw [run_bind] at h
  cases hm : m.run s with
  | ok a s₁ => exact ⟨a, s₁, rfl, by simpa [hm] using h⟩
  | _ => simp [hm] at h

theorem run_of_attempt_ok {m : Proc σ ε α} {s s' : σ} {a : α}
    (h : (attempt m).run s = .ok (.ok a) s') : m.run s = .ok a s' := by
  rw [run_attempt] at h
  cases hm : m.run s with
  | ok b s₁ =>
    rw [hm] at h
    cases h
    rfl
  | err e s₁ =>
    rw [hm] at h
    cases h
  | _ =>
    rw [hm] at h
    cases h

theorem run_ofExcept_bind_of_ok {x : Except ε α} {f : α → Proc σ ε β} {s : σ} {a : α}
    (h : x = .ok a) : (ofExcept x >>= f).run s = (f a).run s := by
  rw [h]
  rfl

theorem ofExcept_bind_eq_ok {x : Except ε α} {f : α → Proc σ ε β} {s s' : σ} {b : β}
    (h : (ofExcept x >>= f).run s = .ok b s') : ∃ a, x = .ok a ∧ (f a).run s = .ok b s' := by
  cases x with
  | ok a => exact ⟨a, rfl, h⟩
  | error e => cases h

theorem run_forEach_modify (xs : List β) (f : σ → β → σ) (s : σ) :
    (forEach xs fun x => (modify (f · x) : Proc σ ε PUnit)).run s = .ok ⟨⟩ (xs.foldl f s) := by
  induction xs generalizing s with
  | nil => rfl
  | cons x xs ih => exact ih (f s x)

theorem run_forEach_append (xs ys : List β) (f : β → Proc σ ε PUnit) (s : σ) :
    (forEach (xs ++ ys) f).run s = (forEach xs f >>= fun _ => forEach ys f).run s := by
  induction xs generalizing s with
  | nil => rfl
  | cons x xs ih =>
    rw [List.cons_append, forEach, forEach, run_bind, run_bind, run_bind]
    cases hx : (f x).run s with
    | ok _ s' => simpa only [run_bind] using ih s'
    | _ => rfl

/-! ## Moving along a preorder -/

/-- Wherever `m` stops when started at `s`, it is at a state related to `s`. -/
def Moves (R : σ → σ → Prop) (m : Proc σ ε α) (s : σ) : Prop := (m.run s).Moved R s

namespace Moves

variable {R : σ → σ → Prop} {s : σ}

theorem mono {R' : σ → σ → Prop} {m : Proc σ ε α} (h : Moves R m s)
    (hR : ∀ s', R s s' → R' s s') : Moves R' m s := by
  unfold Moves at h ⊢
  cases hm : m.run s <;> simp_all [Out.Moved]

theorem of_state? {m : Proc σ ε α} {s' : σ} (h : Moves R m s)
    (hs : (m.run s).state? = some s') : R s s' :=
  Out.Moved.of_state? h hs

theorem ok {m : Proc σ ε α} {s' : σ} {a : α} (h : Moves R m s) (hs : m.run s = .ok a s') :
    R s s' := by
  unfold Moves at h
  rwa [hs] at h

theorem and {R' : σ → σ → Prop} {m : Proc σ ε α} (h : Moves R m s) (h' : Moves R' m s) :
    Moves (fun s s' => R s s' ∧ R' s s') m s := by
  unfold Moves at h h' ⊢
  cases hm : m.run s <;> simp_all [Out.Moved]

theorem panic : Moves R (Proc.panic : Proc σ ε α) s := trivial

theorem outOfFuel : Moves R (Proc.outOfFuel : Proc σ ε α) s := trivial

theorem modify {f : σ → σ} (h : R s (f s)) : Moves R (Proc.modify f : Proc σ ε PUnit) s := h

theorem attempt {m : Proc σ ε α} (h : Moves R m s) : Moves R (Proc.attempt m) s := by
  unfold Moves at h ⊢
  rw [run_attempt]
  cases hm : m.run s <;> simp_all [Out.Moved]

theorem read {f : σ → Proc σ ε α} (h : Moves R (f s) s) : Moves R (get >>= f) s := h

variable [IsPreorder σ R]

theorem pure (a : α) : Moves R (Pure.pure a : Proc σ ε α) s := refl_of R s

theorem throw (e : ε) : Moves R (Proc.throw e : Proc σ ε α) s := refl_of R s

theorem ofExcept (x : Except ε α) : Moves R (Proc.ofExcept x : Proc σ ε α) s := by
  cases x <;> exact refl_of R s

/-- The rest of a procedure starts where the first part returned. -/
theorem bind {m : Proc σ ε α} {f : α → Proc σ ε β} (h : Moves R m s)
    (hf : ∀ a s', m.run s = .ok a s' → Moves R (f a) s') : Moves R (m >>= f) s := by
  cases hm : m.run s with
  | ok a s' =>
    refine Out.Moved.trans (h.ok hm) ?_
    rw [run_bind_of_ok hm]
    exact hf a s' hm
  | err e s' =>
    unfold Moves at h ⊢
    rw [run_bind, hm]
    rwa [hm] at h
  | _ =>
    unfold Moves
    rw [run_bind, hm]
    trivial

/-- A beginning that only computes a state. -/
theorem of_run_eq {m m' : Proc σ ε α} (s' : σ) (hrun : m.run s = m'.run s') (hR : R s s')
    (h : Moves R m' s') : Moves R m s := by
  unfold Moves at h ⊢
  rw [hrun]
  exact Out.Moved.trans hR h

theorem ofExcept_bind {x : Except ε α} {f : α → Proc σ ε β}
    (hf : ∀ a, x = .ok a → Moves R (f a) s) : Moves R (Proc.ofExcept x >>= f) s := by
  refine (ofExcept x).bind fun a s' h => ?_
  cases x with
  | ok a' =>
    cases h
    exact hf a rfl
  | error e => cases h

/-- A loop moves if every round does, from wherever the rounds before it left the state. -/
theorem forEach {xs : List β} {f : β → Proc σ ε PUnit}
    (h : ∀ x ∈ xs, ∀ s', R s s' → Moves R (f x) s') : Moves R (Proc.forEach xs f) s := by
  induction xs generalizing s with
  | nil => exact pure _
  | cons x xs ih =>
    refine (h x (by simp) s (refl_of R s)).bind fun _ s₁ h₁ => ih fun y hy s₂ h₂ => ?_
    exact h y (by simp [hy]) s₂ (trans_of R ((h x (by simp) s (refl_of R s)).ok h₁) h₂)

end Moves

/-! ## Passing through a state -/

/-- Between `s` and `s'` there is a state at which `P` holds. -/
def Passing (R : σ → σ → Prop) (P : σ → Prop) (s s' : σ) : Prop := ∃ t, R s t ∧ P t ∧ R t s'

namespace Moves

variable {R : σ → σ → Prop} {P : σ → Prop} {s : σ}

/-- A beginning that computes such a state. -/
theorem passing_of_run_eq {m : Proc σ ε α} (t : σ) (m' : Proc σ ε α) (hrun : m.run s = m'.run t)
    (hR : R s t) (hP : P t) (h : Moves R m' t) : Moves (Passing R P) m s := by
  unfold Moves
  rw [hrun]
  exact h.from fun s' hs' => ⟨t, hR, hP, hs'⟩

variable [IsPreorder σ R]

theorem passing_bind_left {m : Proc σ ε α} {f : α → Proc σ ε β} {a : α} {s₁ : σ}
    (hrun : m.run s = .ok a s₁) (hR : R s s₁) (h : Moves (Passing R P) (f a) s₁) :
    Moves (Passing R P) (m >>= f) s := by
  unfold Moves
  rw [run_bind_of_ok hrun]
  refine Out.Moved.from h fun s' hs' => ?_
  obtain ⟨t, hst, hP, hts⟩ := hs'
  exact ⟨t, trans_of R hR hst, hP, hts⟩

theorem passing_bind_right {m : Proc σ ε α} {f : α → Proc σ ε β} (h : Moves (Passing R P) m s)
    (hf : ∀ a s', Moves R (f a) s') : Moves (Passing R P) (m >>= f) s := by
  cases hm : m.run s with
  | ok a s' =>
    obtain ⟨t, hst, hP, hts⟩ := h.ok hm
    unfold Moves
    rw [run_bind_of_ok hm]
    refine Out.Moved.from (hf a s') fun s'' hs'' => ?_
    exact ⟨t, hst, hP, trans_of R hts hs''⟩
  | err e s' =>
    unfold Moves at h ⊢
    rw [run_bind, hm]
    rwa [hm] at h
  | _ =>
    unfold Moves
    rw [run_bind, hm]
    trivial

end Moves

/-- From every state, `m` moves along `R`. -/
def Always (R : σ → σ → Prop) (m : Proc σ ε α) : Prop := ∀ s, Moves R m s

namespace Always

variable {R : σ → σ → Prop}

theorem panic : Always R (Proc.panic : Proc σ ε α) := fun _ => Moves.panic

theorem outOfFuel : Always R (Proc.outOfFuel : Proc σ ε α) := fun _ => Moves.outOfFuel

theorem modify {f : σ → σ} (h : ∀ s, R s (f s)) : Always R (Proc.modify f : Proc σ ε PUnit) :=
  fun s => Moves.modify (h s)

theorem attempt {m : Proc σ ε α} (h : Always R m) : Always R (Proc.attempt m) := fun s =>
  (h s).attempt

theorem read {f : σ → Proc σ ε α} (h : ∀ s, Always R (f s)) : Always R (get >>= f) :=
  fun s => Moves.read (h s s)

theorem ite {c : Prop} [Decidable c] {m m' : Proc σ ε α} (h : Always R m) (h' : Always R m') :
    Always R (if c then m else m') := by
  split
  · exact h
  · exact h'

variable [IsPreorder σ R]

theorem pure (a : α) : Always R (Pure.pure a : Proc σ ε α) := fun _ => Moves.pure a

theorem throw (e : ε) : Always R (Proc.throw e : Proc σ ε α) := fun _ => Moves.throw e

theorem ofExcept (x : Except ε α) : Always R (Proc.ofExcept x : Proc σ ε α) := fun _ =>
  Moves.ofExcept x

theorem bind {m : Proc σ ε α} {f : α → Proc σ ε β} (h : Always R m) (hf : ∀ a, Always R (f a)) :
    Always R (m >>= f) := fun s => (h s).bind fun a s' _ => hf a s'

theorem thenPure {m : Proc σ ε α} (h : Always R m) {f : α → β} :
    Always R (m >>= fun a => Pure.pure (f a)) := h.bind fun _ => .pure _

theorem whenM {c : Prop} [Decidable c] {m : Proc σ ε PUnit} (h : Always R m) :
    Always R (if c then m else Pure.pure ⟨⟩) := h.ite (.pure _)

theorem unlessM {c : Prop} [Decidable c] {m : Proc σ ε PUnit} (h : Always R m) :
    Always R (if c then Pure.pure ⟨⟩ else m) := .ite (.pure _) h

theorem forEach {xs : List β} {f : β → Proc σ ε PUnit} (h : ∀ x, Always R (f x)) :
    Always R (Proc.forEach xs f) := fun _ => Moves.forEach fun x _ s' _ => h x s'

end Always

/-- A part of the state that `m` leaves as it was. -/
abbrev Keeps {γ : Type*} (p : σ → γ) (m : Proc σ ε α) (s : σ) : Prop :=
  Moves (fun s s' => p s' = p s) m s

instance {γ : Type*} (p : σ → γ) : IsPreorder σ (fun s s' => p s' = p s) where
  refl _ := rfl
  trans _ _ _ h h' := h'.trans h

instance (R R' : σ → σ → Prop) [IsPreorder σ R] [IsPreorder σ R'] :
    IsPreorder σ (fun s s' => R s s' ∧ R' s s') where
  refl s := ⟨refl_of R s, refl_of R' s⟩
  trans _ _ _ h h' := ⟨trans_of R h.1 h'.1, trans_of R' h.2 h'.2⟩

instance (T : σ → σ → Prop) : IsPreorder σ (Relation.ReflTransGen T) where
  refl _ := .refl
  trans _ _ _ := .trans

end Proc
