import Entangrid.Lib.RateWindow
import Entangrid.Node.Handle

/-!
# Rate limits of a peer

The window a node keeps for a peer is a counting window with the limits of the message classes. Its
start and its counters are shared by the classes only through the reset.

* `allow_eq`: a call on the window is a call on the counting window.
* `peer_rate_limit_holds`: what any sequence of calls is allowed, in any interval and between resets.
-/

namespace Entangrid

open RateWindow (admitted admittedWithin)

namespace PeerMessageWindow

variable {w : PeerMessageWindow} {messageClass : PeerMessageClass} {now : Nat}

/-- The check of `allow_peer_message_in_window` that resets the window. -/
def resets (w : PeerMessageWindow) (now : Nat) : Bool :=
  decide (w.startedAtUnixMillis = 0) ||
    decide (now - w.startedAtUnixMillis ≥ peerMessageWindowMillis)

/-- The calls on a window one after the other, each with its class and time, whether it resets the
window and whether it is allowed. -/
def answers : PeerMessageWindow → List (PeerMessageClass × Nat) →
    List (RateWindow.Answer PeerMessageClass)
  | _, [] => []
  | w, (messageClass, now) :: calls =>
    { cls := messageClass, time := now, renews := w.resets now,
      admitted := (w.allow messageClass now).2 } :: answers (w.allow messageClass now).1 calls

/-- The window as a counting window. -/
def counting (w : PeerMessageWindow) : RateWindow PeerMessageClass :=
  { startedAt := w.startedAtUnixMillis, used := w.count }

theorem counting_increment : (w.increment messageClass).counting =
    { w.counting with used := Function.update w.count messageClass (w.count messageClass + 1) } := by
  have hused : (w.increment messageClass).count =
      Function.update w.count messageClass (w.count messageClass + 1) := by
    funext c
    cases c <;> cases messageClass <;> rfl
  have hstarted : (w.increment messageClass).startedAtUnixMillis = w.startedAtUnixMillis := by
    cases messageClass <;> rfl
  simp only [counting, hused, hstarted]

theorem counting_reset : ({ startedAtUnixMillis := now } : PeerMessageWindow).counting =
    { startedAt := now, used := fun _ => 0 } := by
  simp only [counting, RateWindow.mk.injEq, true_and]
  funext c
  cases c <;> rfl

theorem renewsAt_counting : w.counting.renewsAt peerMessageWindowMillis now = w.resets now := rfl

/-- The window `allow_peer_message_in_window` counts a call in. -/
def current (w : PeerMessageWindow) (now : Nat) : PeerMessageWindow :=
  if w.resets now then { startedAtUnixMillis := now } else w

theorem counting_current :
    (w.current now).counting = w.counting.renewed peerMessageWindowMillis now := by
  unfold current
  cases hresets : w.resets now with
  | true => rw [RateWindow.renewed_of_renews (renewsAt_counting.trans hresets), if_pos rfl,
      counting_reset]
  | false => rw [RateWindow.renewed_of_not (renewsAt_counting.trans hresets), if_neg nofun]

theorem allow_eq_current : w.allow messageClass now =
    if (w.current now).count messageClass < messageClass.limit then
      ((w.current now).increment messageClass, true)
    else (w.current now, false) := by
  have hcurrent : (if w.startedAtUnixMillis = 0 ∨
      now - w.startedAtUnixMillis ≥ peerMessageWindowMillis then
        ({ startedAtUnixMillis := now } : PeerMessageWindow) else w) = w.current now := by
    simp [current, resets]
  unfold allow
  simp only [hcurrent]
  by_cases hlt : (w.current now).count messageClass < messageClass.limit
  · rw [if_neg (Nat.not_le.2 hlt), if_pos hlt]
  · rw [if_pos (Nat.not_lt.1 hlt), if_neg hlt]

variable (w messageClass now) in
/-- **A call on the window is a call on the counting window.** -/
theorem allow_eq : (w.allow messageClass now).1.counting =
      w.counting.next peerMessageWindowMillis PeerMessageClass.limit messageClass now ∧
    (w.allow messageClass now).2 =
      w.counting.admits peerMessageWindowMillis PeerMessageClass.limit messageClass now := by
  have hcount : (w.counting.renewed peerMessageWindowMillis now).used =
      (w.current now).count := congrArg RateWindow.used counting_current.symm
  rw [allow_eq_current]
  unfold RateWindow.next RateWindow.admits
  simp only [decide_eq_true_eq, hcount]
  split_ifs with hlt
  · refine ⟨?_, (decide_eq_true hlt).symm⟩
    rw [counting_increment, counting_current]
  · exact ⟨counting_current, (decide_eq_false hlt).symm⟩

theorem answers_eq (calls : List (PeerMessageClass × Nat)) : w.answers calls =
    w.counting.answers peerMessageWindowMillis PeerMessageClass.limit calls := by
  induction calls generalizing w with
  | nil => rfl
  | cons call calls ih =>
    obtain ⟨messageClass, now⟩ := call
    obtain ⟨hnext, hadmits⟩ := allow_eq w messageClass now
    rw [answers, ih, hnext, hadmits]
    rfl

/-- Without a reset, a call leaves the counters of the other classes. -/
theorem allow_count {c : PeerMessageClass} (hc : messageClass ≠ c) (hresets : w.resets now = false) :
    (w.allow messageClass now).1.count c = w.count c := by
  have hused := congrArg (fun r => RateWindow.used r c) (allow_eq w messageClass now).1
  refine hused.trans ?_
  have hother : (w.counting.answer peerMessageWindowMillis PeerMessageClass.limit messageClass
      now).counts c = false := by
    simp [RateWindow.Answer.counts, RateWindow.answer, hc]
  rw [RateWindow.next_used, hother, RateWindow.renewed_of_not (renewsAt_counting.trans hresets)]
  rfl

end PeerMessageWindow

open PeerMessageWindow in
/-- **The rate limit of a peer.** However the calls on a window mix the classes: in an interval shorter
than the window at most twice the limit of a class is allowed; from one reset to the next at most the
limit; since a reset a call is refused only when its own class has used its limit, and a call that
resets the window is allowed; and without a reset a call leaves the counters of the other classes. -/
theorem peer_rate_limit_holds (w : PeerMessageWindow) (calls : List (PeerMessageClass × Nat))
    (hclock : calls.Pairwise fun x y => x.2 ≤ y.2) (hnonzero : ∀ call ∈ calls, call.2 ≠ 0)
    (c : PeerMessageClass) :
    (∀ since till, till < since + peerMessageWindowMillis →
      admittedWithin c since till (w.answers calls) ≤ 2 * c.limit) ∧
    (∀ before stretch later, w.answers calls = before ++ stretch ++ later →
      (∀ a ∈ stretch.tail, a.renews = false) → admitted c stretch ≤ c.limit) ∧
    (∀ before first rest a later, w.answers calls = before ++ first :: rest ++ a :: later →
      first.renews = true → (∀ b ∈ rest, b.renews = false) → a.renews = false →
      (a.admitted = true ↔ admitted a.cls (first :: rest) < a.cls.limit)) ∧
    (∀ a ∈ w.answers calls, a.renews = true → a.admitted = true) ∧
    ∀ messageClass now, messageClass ≠ c → w.resets now = false →
      (w.allow messageClass now).1.count c = w.count c := by
  have hpos : 0 < peerMessageWindowMillis := by decide
  have hlimit (messageClass : PeerMessageClass) : 0 < messageClass.limit := by
    cases messageClass <;> decide
  rw [answers_eq]
  refine ⟨fun since till hwidth => RateWindow.admitted_within_le hpos hwidth hclock hnonzero,
    fun before stretch later h hstretch => RateWindow.admitted_le_of_no_renewal h hstretch,
    fun before first rest a later h hfirst hrest ha => RateWindow.admitted_iff h hfirst hrest ha,
    fun a ha hrenews => RateWindow.admitted_of_renews hlimit ha hrenews,
    fun messageClass now hc hresets => allow_count hc hresets⟩

/-- Two status messages and a transaction between them, and a third one that resets the window. -/
def sampleCalls : List (PeerMessageClass × Nat) :=
  [(.syncControl, 1000), (.transactionGossip, 1000), (.syncControl, 5999), (.syncControl, 6000)]

/-- The limits of a short run, which allows every call. -/
theorem sample_calls_within_limits :
    (PeerMessageWindow.answers {} sampleCalls).map (·.admitted) = [true, true, true, true] ∧
      (PeerMessageWindow.answers {} sampleCalls).map (·.renews) = [true, false, false, true] ∧
      admittedWithin .syncControl 1001 6000 (PeerMessageWindow.answers {} sampleCalls) ≤ 48 := by
  have hrate := peer_rate_limit_holds {} sampleCalls (by decide) (by decide) .syncControl
  exact ⟨by decide, by decide, hrate.1 1001 6000 (by decide)⟩

end Entangrid
