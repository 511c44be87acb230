import Entangrid.Node.Proof.OneVote

/-!
# Receipts and the peers they credit

A node signs a receipt in answer to a transaction, a block or a heartbeat. The credited source is the
authenticated sender except for heartbeats, which name it themselves; the slot is the node's own for
transactions, and the message's for blocks and heartbeats.

* `receipts_earned_by_source`: as long as the heartbeats it witnesses name their senders, and these
  and the witnessed blocks name slots that were reached, every receipt a node signs credits the
  sender of the message it answers, for a slot that was reached.
-/

namespace Entangrid

variable {E : Env} {A : Source} {n n' : Node}

/-- A slot is not later than the one processed last, or than one the clock showed. -/
def SlotReached (E : Env) (processed : Option Slot) (reads : Nat) (slot : Slot) : Prop :=
  (∃ s, processed = some s ∧ slot ≤ s) ∨ ∃ k < reads, slot ≤ E.consensus.slotAt (E.clock k)

theorem SlotReached.mono {processed : Option Slot} {reads reads' : Nat} {slot : Slot}
    (h : SlotReached E processed reads slot) (hreads : reads ≤ reads') :
    SlotReached E processed reads' slot :=
  h.imp_right fun ⟨k, hk, hslot⟩ => ⟨k, by omega, hslot⟩

theorem Step.clockReads_le (h : Step E A n n') : n.clockReads ≤ n'.clockReads := by
  cases h with
  | book _ hrecords => exact (congrArg Records.clockReads hrecords).ge
  | readClock => exact Nat.le_succ _
  | replaceVotes => rw [Node.withoutVotes_eq]
  | storeVote | bufferVote =>
    rw [Node.withoutVotes_eq]
    exact le_refl _
  | _ => exact le_refl _

/-! ## Handling an event -/

/-- The heartbeats a node witnesses name their senders and slots that were reached, and so do the
blocks it witnesses. -/
def HonestRelay (E : Env) (n : Node) : Event → Prop
  | .received sender (.heartbeatPulse pulse) =>
    Witnesses E pulse.sourceValidatorId E.me pulse.slot →
      pulse.sourceValidatorId = sender ∧ SlotReached E n.lastProcessedSlot n.clockReads pulse.slot
  | .received sender (.blockProposal block) =>
    Witnesses E sender E.me block.header.slot →
      SlotReached E n.lastProcessedSlot n.clockReads block.header.slot
  | _ => True

/-- The receipts that credit the sender of an event met at `n`, for a slot reached by then. -/
def earnedSource (E : Env) (n : Node) (event : Event) : Source where
  receipts m := {receipt | (∃ payload, event = .received receipt.sourceValidatorId payload) ∧
    SlotReached E n.lastProcessedSlot m.clockReads receipt.slot}

theorem admits_earned {event : Event} (h : HonestRelay E n event) :
    (earnedSource E n event).Admits E n event where
  receipts sender payload he m receipt hlater hissues := by
    subst he
    cases payload with
    | heartbeatPulse pulse =>
      obtain ⟨hw, hsource, hslot⟩ := hissues
      rw [hsource, hslot] at hw
      obtain ⟨hsender, hreached⟩ := h hw
      refine ⟨⟨_, by rw [hsource, hsender]⟩, ?_⟩
      rw [hslot]
      exact hreached.mono hlater.clock
    | blockProposal block =>
      obtain ⟨hw, hsource, hslot⟩ := hissues
      rw [hsource, hslot] at hw
      refine ⟨⟨_, by rw [hsource]⟩, ?_⟩
      rw [hslot]
      exact (h hw).mono hlater.clock
    | transactionBroadcast tx =>
      obtain ⟨-, hsource, hslot⟩ := hissues
      refine ⟨⟨_, by rw [hsource]⟩, ?_⟩
      rcases hslot with hprocessed | ⟨k, hk, hclock⟩
      · exact .inl ⟨_, hlater.slot ▸ hprocessed, le_refl _⟩
      · exact .inr ⟨k, hk, hclock.le⟩
    | _ => exact hissues.2.elim

/-- The receipts signed along some steps were allowed where they were signed. -/
theorem Steps.signedReceipts (h : Steps E A n n') {receipt : RelayReceipt}
    (hr : .receiptSigned receipt ∈ n'.effects) : .receiptSigned receipt ∈ n.effects ∨
      ∃ m, receipt ∈ A.receipts m ∧ m.clockReads ≤ n'.clockReads := by
  induction h with
  | refl => exact .inl hr
  | tail _ hstep ih =>
    rcases hstep.effect_new hr (by simp) (by simp) with hold | hguard
    · rcases ih hold with hold | ⟨m, hm, hreads⟩
      · exact .inl hold
      · exact .inr ⟨m, hm, hreads.trans hstep.clockReads_le⟩
    · exact .inr ⟨_, hguard, hstep.clockReads_le⟩

/-- **Receipts are earned by their source.** In every run of honest relays, a receipt the node signed
was signed while handling a message of the peer it credits, for a slot that was reached. -/
theorem receipts_earned_by_source (E : Env) (history : List Handled) (n : Node)
    (hrun : Run E (HonestRelay E) history n) (receipt : RelayReceipt)
    (hr : receipt ∈ n.signedReceipts) : ∃ h ∈ history,
      (∃ payload, h.event = .received receipt.sourceValidatorId payload) ∧
      h.Does (.receiptSigned receipt) ∧
      SlotReached E h.before.lastProcessedSlot h.after.clockReads receipt.slot := by
  rw [Node.mem_signedReceipts] at hr
  induction hrun with
  | fresh slot => simp [Node.fresh] at hr
  | @handle history n n' fuel event _ hP hrun ih =>
    have hsteps : Steps E (earnedSource E n event) n n' :=
      (handleEvent_moves fuel (admits_earned hP)).of_state? hrun
        (Source.covers_of_univ rfl rfl n)
    by_cases hold : .receiptSigned receipt ∈ n.effects
    · obtain ⟨h, hmem, hh⟩ := ih hold
      exact ⟨h, List.mem_cons_of_mem _ hmem, hh⟩
    · obtain ⟨m, ⟨hsender, hslot⟩, hreads⟩ := (hsteps.signedReceipts hr).resolve_left hold
      obtain ⟨new, hnew⟩ := hsteps.effects_suffix
      refine ⟨⟨n, event, n'⟩, List.mem_cons_self, hsender, ⟨new, hnew.symm, ?_⟩, hslot.mono hreads⟩
      exact (List.mem_append.1 (hnew ▸ hr)).resolve_right hold

/-! ## Runs -/

/-- A heartbeat of validator 3 for some slot. -/
def pulseOf3 (slot : Slot) : HeartbeatPulse where
  epoch := (receiptEnv 1).consensus.epochForSlot slot
  slot
  sourceValidatorId := 3
  sequenceNumber := 1
  emittedAtUnixMillis := 0

/-- What node 1 signs when a peer sends it such a heartbeat. -/
theorem pulse_run (sender : ValidatorId) (slot : Slot) (hsender : sender = 2 ∨ sender = 3)
    (hslot : slot = 1 ∨ slot = 900) :
    ((handleEvent (receiptEnv 1) 8 (.received sender (.heartbeatPulse (pulseOf3 slot)))).run
      (.fresh (receiptEnv 1) (some 1))).state?.map (fun n =>
        n.signedReceipts.map fun r => (r.sourceValidatorId, r.slot)) = some [(3, slot)] := by
  rcases hsender with rfl | rfl <;> rcases hslot with rfl | rfl <;> decide +kernel

/-- Node 1 receives the heartbeat of validator 3 from validator 3, for the slot it is in. -/
theorem honest_pulse_is_credited : ∃ history n, Run (receiptEnv 1) (HonestRelay (receiptEnv 1))
    history n ∧ ∃ receipt ∈ n.signedReceipts, receipt.sourceValidatorId = 3 ∧ ∃ h ∈ history,
      (∃ payload, h.event = .received receipt.sourceValidatorId payload) ∧
      h.Does (.receiptSigned receipt) ∧
      SlotReached (receiptEnv 1) h.before.lastProcessedSlot h.after.clockReads receipt.slot := by
  obtain ⟨n, hn, hsigned⟩ := Option.map_eq_some_iff.1 (pulse_run 3 1 (.inr rfl) (.inl rfl))
  obtain ⟨receipt, _, hreceipts, hreceipt, -⟩ := List.map_eq_cons_iff.1 hsigned
  simp only [Prod.mk.injEq] at hreceipt
  have hhonest : HonestRelay (receiptEnv 1) (.fresh (receiptEnv 1) (some 1))
      (.received 3 (.heartbeatPulse (pulseOf3 1))) := fun _ => ⟨rfl, .inl ⟨1, rfl, le_refl _⟩⟩
  have hrun := Run.handle 8 _ (Run.fresh (some 1)) hhonest hn
  have hmem : receipt ∈ n.signedReceipts := by simp [hreceipts]
  exact ⟨_, n, hrun, receipt, hmem, hreceipt.1,
    receipts_earned_by_source (receiptEnv 1) _ n hrun receipt hmem⟩

/-- A heartbeat of validator 2 in the name of validator 3, for a slot far ahead: node 1 signs a
receipt that credits validator 3, from whom it has received nothing, for that slot. -/
theorem forged_pulse_is_credited : ∃ history n, Run (receiptEnv 1) AnyEvent history n ∧
    ∃ receipt ∈ n.signedReceipts,
      (∀ h ∈ history, ∀ payload, h.event ≠ .received receipt.sourceValidatorId payload) ∧
      ∀ h ∈ history,
        ¬SlotReached (receiptEnv 1) h.before.lastProcessedSlot h.after.clockReads receipt.slot := by
  obtain ⟨n, hn, hsigned⟩ := Option.map_eq_some_iff.1 (pulse_run 2 900 (.inl rfl) (.inr rfl))
  obtain ⟨receipt, _, hreceipts, hreceipt, -⟩ := List.map_eq_cons_iff.1 hsigned
  simp only [Prod.mk.injEq] at hreceipt
  refine ⟨_, n, Run.handle 8 _ (Run.fresh (some 1)) trivial hn, receipt, by simp [hreceipts], ?_, ?_⟩
  · rintro h hh payload heq
    obtain rfl := List.mem_singleton.1 hh
    rw [hreceipt.1] at heq
    cases heq
  · rintro h hh hreached
    obtain rfl := List.mem_singleton.1 hh
    have hzero : (receiptEnv 1).consensus.slotAt 0 = 0 := by decide +kernel
    rw [hreceipt.2] at hreached
    rcases hreached with ⟨s, hs, hle⟩ | ⟨k, -, hle⟩
    · obtain rfl : 1 = s := Option.some.inj hs
      exact absurd hle (by decide)
    · rw [show (receiptEnv 1).clock k = 0 from rfl, hzero] at hle
      exact absurd hle (by decide)

end Entangrid
