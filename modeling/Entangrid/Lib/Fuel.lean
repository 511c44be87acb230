import Entangrid.Lib.Proc

/-!
# Procedures that stop

`Matches m m' s`: from `s`, `m` stops with a value or an error, and `m'` does the same. There is one
rule per way of building procedures; with `m' = m` they are the rules for a procedure that stops
(`Stops`). `Ends p errs m s`: from `s`, `m` stops in a state with `p`, and its error is one of `errs`.
`FailsOnly errs m s`: from `s`, an error of `m` is one of `errs`; `Infallible m`: `m` never stops with
an error.

`Matches.of_fuel` is for a procedure that calls itself with less fuel: if a measure drops on the way
to every inner call, any two amounts of fuel above the measure give one run.
-/

universe u

namespace Proc

variable {σ ε α β : Type u}

/-- `m` stops with a value or an error, and `m'` does what it does. -/
def Matches (m m' : Proc σ ε α) (s : σ) : Prop := m.run s = m'.run s ∧ (m.run s).state?.isSome

/-- `m` stops with a value or an error. -/
abbrev Stops (m : Proc σ ε α) (s : σ) : Prop := Matches m m s

/-- `m` stops wherever it is started. -/
def Total (m : Proc σ ε α) : Prop := ∀ s, Stops m s

namespace Matches

variable {s : σ}

theorem pure (a : α) : Stops (Pure.pure a : Proc σ ε α) s := ⟨rfl, rfl⟩

theorem throw (e : ε) : Stops (Proc.throw e : Proc σ ε α) s := ⟨rfl, rfl⟩

theorem ofExcept (x : Except ε α) : Stops (Proc.ofExcept x : Proc σ ε α) s := by
  cases x <;> exact ⟨rfl, rfl⟩

theorem modify (f : σ → σ) : Stops (Proc.modify f : Proc σ ε PUnit) s := ⟨rfl, rfl⟩

theorem read {f f' : σ → Proc σ ε α} (h : Matches (f s) (f' s) s) :
    Matches (get >>= f) (get >>= f') s := h

/-- The rest of a procedure has to match where the first part returned. -/
theorem bind {m m' : Proc σ ε α} {f f' : α → Proc σ ε β} (h : Matches m m' s)
    (hf : ∀ a s', m.run s = .ok a s' → Matches (f a) (f' a) s') :
    Matches (m >>= f) (m' >>= f') s := by
  obtain ⟨heq, hstops⟩ := h
  unfold Matches
  rw [run_bind, run_bind, ← heq]
  cases hm : m.run s with
  | ok a s' => exact hf a s' hm
  | err e s' => exact ⟨rfl, rfl⟩
  | _ => simp [hm, Out.state?] at hstops

theorem ofExcept_bind {x : Except ε α} {f f' : α → Proc σ ε β}
    (hf : ∀ a, x = .ok a → Matches (f a) (f' a) s) :
    Matches (Proc.ofExcept x >>= f) (Proc.ofExcept x >>= f') s := by
  refine (ofExcept x).bind fun a s' h => ?_
  cases x with
  | ok a' =>
    cases h
    exact hf a rfl
  | error e => cases h

theorem attempt {m m' : Proc σ ε α} (h : Matches m m' s) :
    Matches (Proc.attempt m) (Proc.attempt m') s := by
  obtain ⟨heq, hstops⟩ := h
  unfold Matches
  rw [run_attempt, run_attempt, ← heq]
  cases hm : m.run s with
  | ok a s' => exact ⟨rfl, rfl⟩
  | err e s' => exact ⟨rfl, rfl⟩
  | _ => simp [hm, Out.state?] at hstops

theorem ite {c : Prop} [Decidable c] {m₁ m₂ m₁' m₂' : Proc σ ε α} (h₁ : c → Matches m₁ m₁' s)
    (h₂ : ¬c → Matches m₂ m₂' s) :
    Matches (if c then m₁ else m₂) (if c then m₁' else m₂') s := by
  by_cases hc : c
  · simpa only [if_pos hc] using h₁ hc
  · simpa only [if_neg hc] using h₂ hc

/-- A loop matches another if every round does, from wherever the rounds before it may have led. -/
theorem forEach {R : σ → σ → Prop} [IsPreorder σ R] {xs : List β} {f f' : β → Proc σ ε PUnit}
    (hmoves : ∀ x ∈ xs, ∀ s', R s s' → Moves R (f x) s')
    (h : ∀ x ∈ xs, ∀ s', R s s' → Matches (f x) (f' x) s') :
    Matches (Proc.forEach xs f) (Proc.forEach xs f') s := by
  induction xs generalizing s with
  | nil => exact pure _
  | cons x xs ih =>
    have hrefl : R s s := refl_of R s
    refine (h x (by simp) s hrefl).bind fun _ s₁ hrun => ?_
    have h₁ : R s s₁ := (hmoves x (by simp) s hrefl).ok hrun
    exact ih (fun y hy s₂ h₂ => hmoves y (by simp [hy]) s₂ (trans_of R h₁ h₂))
      (fun y hy s₂ h₂ => h y (by simp [hy]) s₂ (trans_of R h₁ h₂))

/-- **Enough fuel gives one run.** `F` is the body of a procedure that calls itself; from where a
call is `Ready`, the measure drops on the way to every inner call. -/
theorem of_fuel {F : (β → Proc σ ε α) → β → Proc σ ε α} {call : Nat → β → Proc σ ε α}
    (hcall : ∀ fuel, call (fuel + 1) = F (call fuel)) (Ready : β → σ → Prop) (μ : σ → Nat)
    (hF : ∀ (g g' : β → Proc σ ε α) b s, Ready b s →
      (∀ b' s', Ready b' s' → μ s' < μ s → Matches (g b') (g' b') s') →
      Matches (F g b) (F g' b) s)
    {fuel fuel' : Nat} {b : β} (hready : Ready b s) (h : μ s < fuel) (h' : μ s < fuel') :
    Matches (call fuel b) (call fuel' b) s := by
  induction fuel generalizing fuel' b s with
  | zero => omega
  | succ fuel ih =>
    obtain ⟨fuel', rfl⟩ : ∃ k, fuel' = k + 1 := ⟨fuel' - 1, by omega⟩
    rw [hcall, hcall]
    refine hF _ _ b s hready fun b' s' hready' hlt => ?_
    exact ih hready' (by omega) (by omega)

end Matches

/-! ## Procedures without fuel -/

namespace Total

variable {s : σ}

theorem pure (a : α) : Total (Pure.pure a : Proc σ ε α) := fun _ => Matches.pure a

theorem throw (e : ε) : Total (Proc.throw e : Proc σ ε α) := fun _ => Matches.throw e

theorem ofExcept (x : Except ε α) : Total (Proc.ofExcept x : Proc σ ε α) :=
  fun _ => Matches.ofExcept x

theorem modify (f : σ → σ) : Total (Proc.modify f : Proc σ ε PUnit) := fun _ => Matches.modify f

theorem read {f : σ → Proc σ ε α} (h : ∀ s, Total (f s)) : Total (get >>= f) := fun s => h s s

theorem bind {m : Proc σ ε α} {f : α → Proc σ ε β} (h : Total m) (hf : ∀ a, Total (f a)) :
    Total (m >>= f) := fun s => (h s).bind fun a s' _ => hf a s'

theorem ite {c : Prop} [Decidable c] {m m' : Proc σ ε α} (h : Total m) (h' : Total m') :
    Total (if c then m else m') := fun s => .ite (fun _ => h s) fun _ => h' s

theorem attempt {m : Proc σ ε α} (h : Total m) : Total (Proc.attempt m) := fun s => (h s).attempt

theorem thenPure {m : Proc σ ε α} (h : Total m) {f : α → β} :
    Total (m >>= fun a => Pure.pure (f a)) := h.bind fun _ => .pure _

theorem forEach {xs : List β} {f : β → Proc σ ε PUnit} (h : ∀ x, Total (f x)) :
    Total (Proc.forEach xs f) := by
  induction xs with
  | nil => exact pure _
  | cons x xs ih => exact (h x).bind fun _ => ih

end Total

/-! ## Procedures that come back to a property -/

/-- `m` stops where `p` holds, with a value or with an error among `errs`. -/
def Ends (p : σ → Prop) (errs : ε → Prop) (m : Proc σ ε α) (s : σ) : Prop :=
  match m.run s with
  | .ok _ s' => p s'
  | .err e s' => errs e ∧ p s'
  | _ => False

namespace Ends

variable {p : σ → Prop} {errs errs' : ε → Prop} {s : σ}

theorem pure {a : α} (h : p s) : Ends p errs (Pure.pure a : Proc σ ε α) s := h

theorem throw {e : ε} (he : errs e) (h : p s) : Ends p errs (Proc.throw e : Proc σ ε α) s := ⟨he, h⟩

theorem modify {f : σ → σ} (h : p (f s)) : Ends p errs (Proc.modify f : Proc σ ε PUnit) s := h

theorem read {f : σ → Proc σ ε α} (h : Ends p errs (f s) s) : Ends p errs (get >>= f) s := h

theorem bind {m : Proc σ ε α} {f : α → Proc σ ε β} (h : Ends p errs m s)
    (hf : ∀ a s', m.run s = .ok a s' → p s' → Ends p errs (f a) s') : Ends p errs (m >>= f) s := by
  unfold Ends at h
  cases hm : m.run s with
  | ok a s' =>
    rw [hm] at h
    have hrest := hf a s' hm h
    unfold Ends at hrest ⊢
    rwa [run_bind_of_ok hm]
  | err e s' =>
    rw [hm] at h
    unfold Ends
    rw [run_bind, hm]
    exact h
  | _ =>
    rw [hm] at h
    exact h.elim

/-- A beginning that is known to return. -/
theorem after {m : Proc σ ε α} {f : α → Proc σ ε β} {a : α} {s' : σ} (hrun : m.run s = .ok a s')
    (h : Ends p errs (f a) s') : Ends p errs (m >>= f) s := by
  unfold Ends at h ⊢
  rwa [run_bind_of_ok hrun]

theorem ofExcept_bind {x : Except ε α} {f : α → Proc σ ε β} (h : p s)
    (he : ∀ e, x = .error e → errs e) (hf : ∀ a, x = .ok a → Ends p errs (f a) s) :
    Ends p errs (Proc.ofExcept x >>= f) s := by
  cases x with
  | ok a => exact hf a rfl
  | error e => exact ⟨he e rfl, h⟩

theorem attempt {m : Proc σ ε α} (h : Ends p errs m s) : Ends p errs' (Proc.attempt m) s := by
  unfold Ends at h ⊢
  rw [run_attempt]
  cases hm : m.run s with
  | ok a s' => rwa [hm] at h
  | err e s' =>
    rw [hm] at h
    exact h.2
  | _ => rwa [hm] at h

theorem attempt_error {m : Proc σ ε α} {e : ε} {s' : σ} (h : Ends p errs m s)
    (hrun : (Proc.attempt m).run s = .ok (.error e) s') : errs e := by
  unfold Ends at h
  rw [run_attempt] at hrun
  cases hm : m.run s with
  | err e s' =>
    rw [hm] at h hrun
    cases hrun
    exact h.1
  | _ =>
    rw [hm] at hrun
    cases hrun

theorem ite {c : Prop} [Decidable c] {m m' : Proc σ ε α} (h : c → Ends p errs m s)
    (h' : ¬c → Ends p errs m' s) : Ends p errs (if c then m else m') s := by
  by_cases hc : c
  · simpa only [if_pos hc] using h hc
  · simpa only [if_neg hc] using h' hc

theorem thenPure {m : Proc σ ε α} {f : α → β} (h : Ends p errs m s) :
    Ends p errs (m >>= fun a => Pure.pure (f a)) s := h.bind fun _ _ _ hp => .pure hp

theorem forEach {xs : List β} {f : β → Proc σ ε PUnit} (h : p s)
    (hf : ∀ x ∈ xs, ∀ s', p s' → Ends p errs (f x) s') : Ends p errs (Proc.forEach xs f) s := by
  induction xs generalizing s with
  | nil => exact h
  | cons x xs ih =>
    exact (hf x (by simp) s h).bind fun _ _ _ hp => ih hp fun y hy => hf y (by simp [hy])

theorem mono {m : Proc σ ε α} (h : Ends p errs m s) (he : ∀ e, errs e → errs' e) :
    Ends p errs' m s := by
  unfold Ends at h ⊢
  cases hm : m.run s with
  | err e s' =>
    rw [hm] at h
    exact h.imp_left (he e)
  | _ => rwa [hm] at h

theorem stops {m : Proc σ ε α} (h : Ends p errs m s) : Stops m s := by
  refine ⟨rfl, ?_⟩
  unfold Ends at h
  cases hm : m.run s with
  | ok | err => rfl
  | _ =>
    rw [hm] at h
    exact h.elim

/-- With no error to end with, `m` returns a value. -/
theorem returns {m : Proc σ ε α} (h : Ends p (fun _ => False) m s) :
    ∃ a s', m.run s = .ok a s' ∧ p s' := by
  unfold Ends at h
  cases hm : m.run s with
  | ok a s' =>
    rw [hm] at h
    exact ⟨a, s', rfl, h⟩
  | _ =>
    rw [hm] at h
    simp at h

end Ends

/-! ## Procedures that do not fail -/

/-- `m` does not stop with an error. -/
def Infallible (m : Proc σ ε α) : Prop := ∀ s e s', m.run s ≠ .err e s'

namespace Infallible

theorem pure (a : α) : Infallible (Pure.pure a : Proc σ ε α) := nofun

theorem modify (f : σ → σ) : Infallible (Proc.modify f : Proc σ ε PUnit) := nofun

theorem read {f : σ → Proc σ ε α} (h : ∀ s, Infallible (f s)) : Infallible (get >>= f) :=
  fun s => h s s

theorem attempt (m : Proc σ ε α) : Infallible (Proc.attempt m) := by
  intro s e s'
  rw [run_attempt]
  cases m.run s <;> nofun

theorem bind {m : Proc σ ε α} {f : α → Proc σ ε β} (h : Infallible m)
    (hf : ∀ a, Infallible (f a)) : Infallible (m >>= f) := by
  intro s e s'
  rw [run_bind]
  cases hm : m.run s with
  | ok a s₁ => exact hf a s₁ e s'
  | err e₁ s₁ => exact absurd hm (h s e₁ s₁)
  | _ => nofun

theorem forEach {xs : List β} {f : β → Proc σ ε PUnit} (h : ∀ x, Infallible (f x)) :
    Infallible (Proc.forEach xs f) := by
  induction xs with
  | nil => exact pure _
  | cons x xs ih => exact (h x).bind fun _ => ih

/-- Where it stops, it returns a value. -/
theorem run_eq_ok {m : Proc σ ε α} (h : Infallible m) {s : σ} (hstops : Stops m s) :
    ∃ a s', m.run s = .ok a s' := by
  have hstate := hstops.2
  cases hm : m.run s with
  | ok a s' => exact ⟨a, s', rfl⟩
  | err e s' => exact absurd hm (h s e s')
  | _ => simp [hm, Out.state?] at hstate

end Infallible

/-! ## Procedures that fail in known ways -/

/-- The error of `m`, if it stops with one, is among `errs`. -/
def FailsOnly (errs : ε → Prop) (m : Proc σ ε α) (s : σ) : Prop :=
  ∀ e s', m.run s = .err e s' → errs e

theorem Infallible.failsOnly {m : Proc σ ε α} {errs : ε → Prop} {s : σ} (h : Infallible m) :
    FailsOnly errs m s := fun e s' hrun => absurd hrun (h s e s')

theorem Ends.failsOnly {m : Proc σ ε α} {p : σ → Prop} {errs : ε → Prop} {s : σ}
    (h : Ends p errs m s) : FailsOnly errs m s := by
  intro e s' hrun
  unfold Ends at h
  rw [hrun] at h
  exact h.1

namespace FailsOnly

variable {errs errs' : ε → Prop} {s : σ}

theorem pure (a : α) : FailsOnly errs (Pure.pure a : Proc σ ε α) s := nofun

theorem outOfFuel : FailsOnly errs (Proc.outOfFuel : Proc σ ε α) s := nofun

theorem throw {e : ε} (he : errs e) : FailsOnly errs (Proc.throw e : Proc σ ε α) s := by
  intro e' s' hrun
  cases hrun
  exact he

theorem read {f : σ → Proc σ ε α} (h : FailsOnly errs (f s) s) : FailsOnly errs (get >>= f) s := h

/-- The rest of a procedure has to succeed where the first part returned. -/
theorem bind {m : Proc σ ε α} {f : α → Proc σ ε β} (h : FailsOnly errs m s)
    (hf : ∀ a s', m.run s = .ok a s' → FailsOnly errs (f a) s') : FailsOnly errs (m >>= f) s := by
  intro e s' hrun
  rw [run_bind] at hrun
  cases hm : m.run s with
  | ok a s₁ =>
    rw [hm] at hrun
    exact hf a s₁ hm e s' hrun
  | err e₁ s₁ =>
    rw [hm] at hrun
    cases hrun
    exact h e s' hm
  | _ =>
    rw [hm] at hrun
    cases hrun

/-- The rest starts where the first part ended. -/
theorem bind_ends {p : σ → Prop} {m : Proc σ ε α} {f : α → Proc σ ε β} (h : Ends p errs m s)
    (hf : ∀ a s', p s' → FailsOnly errs (f a) s') : FailsOnly errs (m >>= f) s := by
  refine h.failsOnly.bind fun a s' hrun => hf a s' ?_
  unfold Ends at h
  rwa [hrun] at h

theorem modify_bind {g : σ → σ} {f : PUnit → Proc σ ε β} (h : FailsOnly errs (f ⟨⟩) (g s)) :
    FailsOnly errs (Proc.modify g >>= f) s := h

theorem ofExcept_bind {x : Except ε α} {f : α → Proc σ ε β} (he : ∀ e, x = .error e → errs e)
    (hf : ∀ a, x = .ok a → FailsOnly errs (f a) s) :
    FailsOnly errs (Proc.ofExcept x >>= f) s := by
  cases x with
  | ok a => exact hf a rfl
  | error e => exact throw (he e rfl)

theorem ite {c : Prop} [Decidable c] {m m' : Proc σ ε α} (h : c → FailsOnly errs m s)
    (h' : ¬c → FailsOnly errs m' s) : FailsOnly errs (if c then m else m') s := by
  by_cases hc : c
  · simpa only [if_pos hc] using h hc
  · simpa only [if_neg hc] using h' hc

theorem thenPure {m : Proc σ ε α} {f : α → β} (h : FailsOnly errs m s) :
    FailsOnly errs (m >>= fun a => Pure.pure (f a)) s := h.bind fun _ _ _ => pure _

theorem mono {m : Proc σ ε α} (h : FailsOnly errs m s) (he : ∀ e, errs e → errs' e) :
    FailsOnly errs' m s := fun e s' hrun => he e (h e s' hrun)

/-- What follows a caught error has to deal with the errors there can be. -/
theorem attempt_bind {m : Proc σ ε α} {f : Except ε α → Proc σ ε β} (h : FailsOnly errs' m s)
    (hok : ∀ a s', m.run s = .ok a s' → FailsOnly errs (f (.ok a)) s')
    (herr : ∀ e s', errs' e → FailsOnly errs (f (.error e)) s') :
    FailsOnly errs (Proc.attempt m >>= f) s := by
  intro e s' hrun
  rw [run_bind, run_attempt] at hrun
  cases hm : m.run s with
  | ok a s₁ =>
    rw [hm] at hrun
    exact hok a s₁ hm e s' hrun
  | err e₁ s₁ =>
    rw [hm] at hrun
    exact herr e₁ s₁ (h e₁ s₁ hm) e s' hrun
  | _ =>
    rw [hm] at hrun
    cases hrun

end FailsOnly

/-- From `s`, `m` stops with no error. -/
abbrev NeverFails (m : Proc σ ε α) (s : σ) : Prop := FailsOnly (fun _ => False) m s

end Proc
