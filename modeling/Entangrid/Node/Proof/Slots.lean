import Entangrid.Lib.CatchUp
import Entangrid.Node.Proof.Handlers
import Entangrid.Node.Start
import Entangrid.Sample

/-!
# The slots a node processes

A node processes slots tick by tick, from a cursor that `initial_last_processed_slot` sets at start and
that follows the last processed slot. While the clock is not behind the cursor, the ticks process one
interval of slots. A tick behind the cursor processes its own slot and takes the cursor back.

* `visits`: the slots that the ticks of a run process, one after the other.
* `visits_of_events`: so they do in a run of events, whatever else the node handles between them.
* `visits_eq_run`: the cursor catches up with the slots of the clock.
* `slots_processed_once_iff`: each slot once, none again after a restart, exactly when no tick is
  behind the restored slot.
-/

namespace Entangrid

variable {E : Env} {n n' : Node} {fuel : Nat}
variable {cursor restored : Option Slot} {start t : Nat} {ticks : List Nat}

/-! ## Ticks -/

/-- The slots a tick at time `t` processes. -/
def slotsVisited (E : Env) (cursor : Option Slot) (t : Nat) : List Slot :=
  if t < E.genesis.genesisTimeUnixMillis || cursor == some (E.consensus.slotAt t) then []
  else pendingSlotsToProcess cursor (E.consensus.slotAt t)

/-- Where the cursor stands after it: each slot is set as the last processed one. -/
def cursorAfter (E : Env) (cursor : Option Slot) (t : Nat) : Option Slot :=
  (slotsVisited E cursor t).getLast?.or cursor

/-- The slots that the ticks process, one after the other. -/
def visits (E : Env) : Option Slot → List Nat → List Slot
  | _, [] => []
  | cursor, t :: ticks => slotsVisited E cursor t ++ visits E (cursorAfter E cursor t) ticks

/-- Those of them that are the slot of their tick. -/
def liveVisits (E : Env) : Option Slot → List Nat → List Slot
  | _, [] => []
  | cursor, t :: ticks =>
    (slotsVisited E cursor t).filter (· == E.consensus.slotAt t) ++
      liveVisits E (cursorAfter E cursor t) ticks

/-- The ticks of a node that started at `start` on a ledger whose last slot is `restored` process
consecutive slots up to the slot of the last tick, each of them live at most once, all after the
restored one. -/
structure ProcessedOnce (E : Env) (restored : Option Slot) (start : Nat) (ticks : List Nat) : Prop where
  consecutive : (visits E (initialLastProcessedSlot E restored start) ticks).IsChain
    (fun slot next => next = slot + 1)
  ends : ∀ t ∈ ticks.getLast?, E.genesis.genesisTimeUnixMillis ≤ t →
    (visits E (initialLastProcessedSlot E restored start) ticks).getLast?.or
      (initialLastProcessedSlot E restored start) = some (E.consensus.slotAt t)
  live : (liveVisits E (initialLastProcessedSlot E restored start) ticks).Nodup
  fresh : ∀ slot ∈ visits E (initialLastProcessedSlot E restored start) ticks,
    ∀ s ∈ restored, s < slot

/-- A tick processes the slots of `slotsVisited`. -/
theorem run_processSlotTick (fuel : Nat) (n : Node) :
    (processSlotTick E fuel).run n =
      (Proc.forEach (slotsVisited E n.lastProcessedSlot (E.clock n.clockReads))
        (processSlot E fuel (E.consensus.slotAt (E.clock n.clockReads)))).run
          { n with clockReads := n.clockReads + 1 } := by
  rw [slotsVisited]
  show (if (_ : Bool) = true then _ else _ : NodeM Unit).run _ = _
  split_ifs <;> rfl

/-! ## The ticks of a run -/

theorem Step.cursor_cases {A : Source} (h : Step E A n n') :
    n'.lastProcessedSlot = n.lastProcessedSlot ∨ ∃ slot ∈ A.slots, n'.lastProcessedSlot = some slot := by
  cases h with
  | book _ hrecords => exact .inl (congrArg Records.lastProcessedSlot hrecords)
  | enterSlot slot h => exact .inr ⟨slot, h, rfl⟩
  | replaceVotes | storeVote | bufferVote =>
    rw [Node.withoutVotes_eq]
    exact .inl rfl
  | _ => exact .inl rfl

/-- A chain of steps leaves the cursor where it is or at a slot it enters. -/
theorem Steps.cursor_cases {A : Source} (h : Steps E A n n') :
    n'.lastProcessedSlot = n.lastProcessedSlot ∨ ∃ slot ∈ A.slots, n'.lastProcessedSlot = some slot := by
  induction h with
  | refl => exact .inl rfl
  | tail _ hstep ih =>
    rcases hstep.cursor_cases with hkept | hentered
    · rw [hkept]
      exact ih
    · exact .inr hentered

/-- Processing a slot leaves the cursor at it. -/
theorem cursor_of_processSlot {currentSlot slot : Slot}
    (h : (processSlot E fuel currentSlot slot).run n = .ok () n') : n'.lastProcessedSlot = some slot := by
  have hentered : (processSlot E fuel currentSlot slot).run { n with lastProcessedSlot := some slot } =
      .ok () n' := h
  have hmoves := (Acts.handles (E := E) (A := { slots := {slot} }) trivial trivial).processSlot fuel
    currentSlot rfl { n with lastProcessedSlot := some slot }
  rcases (hmoves.ok hentered (Source.covers_of_univ rfl rfl _)).cursor_cases with hkept | ⟨_, rfl, hat⟩
  · exact hkept
  · exact hat

theorem cursor_of_slots {currentSlot : Slot} {slots : List Slot}
    (h : (Proc.forEach slots (processSlot E fuel currentSlot)).run n = .ok () n') :
    n'.lastProcessedSlot = slots.getLast?.or n.lastProcessedSlot := by
  induction slots generalizing n with
  | nil =>
    cases h
    rfl
  | cons slot slots ih =>
    obtain ⟨_, m, hfirst, hrest⟩ := Proc.run_bind_eq_ok h
    rw [ih hrest, cursor_of_processSlot hfirst, List.getLast?_cons]
    cases slots.getLast? <;> rfl

/-- **A tick takes the cursor to the last slot it visits.** -/
theorem cursor_of_tick (h : (processSlotTick E fuel).run n = .ok () n') :
    n'.lastProcessedSlot = cursorAfter E n.lastProcessedSlot (E.clock n.clockReads) := by
  rw [run_processSlotTick] at h
  have hcursor := cursor_of_slots h
  exact hcursor

/-- Other events leave it. -/
theorem cursor_of_event {event : Event} (hevent : event ≠ .slotTick)
    (h : ((handleEvent E fuel event).run n).state? = some n') :
    n'.lastProcessedSlot = n.lastProcessedSlot := by
  have hadmits : Source.Admits { slots := ∅ } E n event := { slots := fun he => absurd he hevent }
  have hsteps := (handleEvent_moves fuel hadmits).of_state? h (Source.covers_of_univ rfl rfl n)
  exact hsteps.cursor_cases.resolve_right fun ⟨_, hslot, _⟩ => hslot

/-- The ticks of a run in which they succeed, and the slots they process. -/
def ticksOf (E : Env) (fuel : Nat) : List Event → Node → Option (List Nat × List Slot)
  | [], _ => some ([], [])
  | .slotTick :: events, n =>
    match (processSlotTick E fuel).run n with
    | .ok _ n' => do
      let t := E.clock n.clockReads
      let (ticks, slots) ← ticksOf E fuel events n'
      some (t :: ticks, slotsVisited E n.lastProcessedSlot t ++ slots)
    | _ => none
  | event :: events, n => do
    let n' ← ((handleEvent E fuel event).run n).state?
    ticksOf E fuel events n'

/-- **The slots of a run of events** are those its ticks visit one after the other. -/
theorem visits_of_events {events : List Event} {slots : List Slot}
    (h : ticksOf E fuel events n = some (ticks, slots)) : slots = visits E n.lastProcessedSlot ticks := by
  induction events generalizing n ticks slots with
  | nil =>
    cases h
    rfl
  | cons event events ih =>
    cases event with
    | slotTick =>
      unfold ticksOf at h
      dsimp only at h
      split at h
      · next n' hrun =>
        obtain ⟨⟨ticks', slots'⟩, hrest, h⟩ := Option.bind_eq_some_iff.1 h
        obtain ⟨rfl, rfl⟩ := Prod.mk.inj (Option.some.inj h)
        rw [visits, ← cursor_of_tick hrun, ← ih hrest]
      · cases h
    | _ =>
      unfold ticksOf at h
      obtain ⟨n', hrun, hrest⟩ := Option.bind_eq_some_iff.1 h
      rw [ih hrest, cursor_of_event (by simp) hrun]

/-! ## The cursor catches up -/

/-- The slots of the clock at the ticks, from genesis on. -/
def tickSlots (E : Env) (ticks : List Nat) : List Nat :=
  (ticks.filter (E.genesis.genesisTimeUnixMillis ≤ ·)).map E.consensus.slotAt

theorem slotAt_mono {t t' : Nat} (h : t ≤ t') : E.consensus.slotAt t ≤ E.consensus.slotAt t' :=
  Nat.div_le_div_right (Nat.sub_le_sub_right h _)

theorem pairwise_tickSlots (h : ticks.Pairwise (· ≤ ·)) : (tickSlots E ticks).Pairwise (· ≤ ·) := by
  rw [tickSlots, List.pairwise_map]
  exact (h.sublist List.filter_sublist).imp fun hle => slotAt_mono hle

theorem slotsVisited_of_lt (h : t < E.genesis.genesisTimeUnixMillis) : slotsVisited E cursor t = [] := by
  simp [slotsVisited, h]

/-- From genesis on, a tick takes the cursor to its slot. -/
theorem slotsVisited_eq_visit (ht : E.genesis.genesisTimeUnixMillis ≤ t) :
    slotsVisited E cursor t = CatchUp.visit cursor (E.consensus.slotAt t) := by
  have hgenesis : decide (t < E.genesis.genesisTimeUnixMillis) = false := decide_eq_false (by omega)
  rw [slotsVisited, hgenesis, Bool.false_or, CatchUp.visit]
  cases cursor with
  | none =>
    rw [if_neg (by simp), if_neg (by simp)]
    exact List.range_eq_range'.trans (if_neg (Nat.not_lt_zero _)).symm
  | some previous =>
    by_cases hat : previous = E.consensus.slotAt t
    · rw [if_pos (by simpa using hat), if_pos (congrArg some hat)]
    · rw [if_neg (by simpa using hat), if_neg (by simpa using hat), pendingSlotsToProcess]
      by_cases hbehind : previous ≥ E.consensus.slotAt t
      · exact (if_pos hbehind).trans (if_pos (Nat.lt_succ_of_le hbehind)).symm
      · refine (if_neg hbehind).trans (Eq.trans ?_ (if_neg fun h => hbehind (Nat.le_of_lt_succ h)).symm)
        rw [CatchUp.next_some, Nat.add_sub_add_right]

theorem cursorAfter_eq (ht : E.genesis.genesisTimeUnixMillis ≤ t) :
    cursorAfter E cursor t = some (E.consensus.slotAt t) := by
  rw [cursorAfter, slotsVisited_eq_visit ht]
  exact CatchUp.getLast?_visit_or

/-- The ticks before genesis do nothing, the others catch up with their slots. -/
theorem visits_eq_run : visits E cursor ticks = CatchUp.run cursor (tickSlots E ticks) ∧
    liveVisits E cursor ticks = CatchUp.hits cursor (tickSlots E ticks) := by
  induction ticks generalizing cursor with
  | nil => exact ⟨rfl, rfl⟩
  | cons t ticks ih =>
    by_cases ht : E.genesis.genesisTimeUnixMillis ≤ t
    · have hslots : tickSlots E (t :: ticks) = E.consensus.slotAt t :: tickSlots E ticks := by
        simp [tickSlots, ht]
      rw [hslots, visits, liveVisits, cursorAfter_eq ht, slotsVisited_eq_visit ht, ih.1, ih.2]
      exact ⟨rfl, rfl⟩
    · have hslots : tickSlots E (t :: ticks) = tickSlots E ticks := by
        simp [tickSlots, ht]
      have hvisited : slotsVisited E cursor t = [] := slotsVisited_of_lt (Nat.lt_of_not_le ht)
      have hafter : cursorAfter E cursor t = cursor := by
        rw [cursorAfter, hvisited]
        rfl
      rw [hslots, visits, liveVisits, hafter, hvisited, ih.1, ih.2]
      exact ⟨rfl, rfl⟩

/-- The last tick from genesis on has the last slot. -/
theorem getLast?_tickSlots (h : ticks.getLast? = some t) (ht : E.genesis.genesisTimeUnixMillis ≤ t) :
    (tickSlots E ticks).getLast? = some (E.consensus.slotAt t) := by
  obtain ⟨before, rfl⟩ := List.getLast?_eq_some_iff.1 h
  simp [tickSlots, ht]

/-! ## From the start -/

/-- A restored slot that the clock has not reached is where the cursor starts. -/
theorem initialLastProcessedSlot_of_gt {s : Slot} (h : E.consensus.slotAt start < s) :
    initialLastProcessedSlot E (some s) start = some s := by
  simp only [initialLastProcessedSlot, Option.getD_some]
  split_ifs
  · rfl
  · rfl
  · rw [Nat.max_eq_left ((Nat.sub_le _ _).trans (Nat.le_of_lt h))]

/-- The cursor starts at the restored slot or later. -/
theorem lt_next_initialLastProcessedSlot {s : Nat} (h : restored = some s) :
    s < CatchUp.next (initialLastProcessedSlot E restored start) := by
  subst h
  simp only [initialLastProcessedSlot, Option.getD_some]
  split_ifs
  · exact Nat.lt_succ_self s
  · exact Nat.lt_succ_self s
  · exact Nat.lt_succ_of_le (Nat.le_max_left _ _)

/-- It is not ahead of a slot that neither the restored slot nor the clock is ahead of. -/
theorem next_initialLastProcessedSlot_le {slot : Nat} (hstart : E.consensus.slotAt start ≤ slot)
    (hrestored : ∀ s ∈ restored, s ≤ slot) :
    CatchUp.next (initialLastProcessedSlot E restored start) ≤ slot + 1 := by
  have hnext : CatchUp.next restored ≤ slot + 1 := by
    cases restored with
    | none => exact Nat.zero_le _
    | some s => exact Nat.succ_le_succ (hrestored s rfl)
  simp only [initialLastProcessedSlot]
  split_ifs
  · exact hnext
  · exact hnext
  · refine Nat.succ_le_succ (Nat.max_le.2 ⟨?_, (Nat.sub_le _ _).trans hstart⟩)
    cases restored with
    | none => exact (Nat.sub_le _ _).trans hstart
    | some s => exact hrestored s rfl

/-- **Slots are processed once exactly while the clock is not behind the restored slot.** The ticks of
a node that starts at `start`, in the order of the clock, process consecutive slots up to the last
tick's, each live at most once and none at or before the restored slot, if and only if no tick shows
a slot before the restored one. -/
theorem slots_processed_once_iff (E : Env) (restored : Option Slot) (start : Nat) (ticks : List Nat)
    (hsorted : (start :: ticks).Pairwise (· ≤ ·)) :
    ProcessedOnce E restored start ticks ↔
      ∀ t ∈ ticks, E.genesis.genesisTimeUnixMillis ≤ t →
        ∀ s ∈ restored, s ≤ E.consensus.slotAt t := by
  obtain ⟨hstart, hsorted⟩ := List.pairwise_cons.1 hsorted
  have hslots := pairwise_tickSlots (E := E) hsorted
  constructor
  · rintro h t ht hgenesis s rfl
    by_contra hlt
    have hbehind : E.consensus.slotAt t < s := Nat.lt_of_not_le hlt
    have hcursor : initialLastProcessedSlot E (some s) start = some s :=
      initialLastProcessedSlot_of_gt (Nat.lt_of_le_of_lt (slotAt_mono (hstart t ht)) hbehind)
    have hmem : E.consensus.slotAt t ∈ tickSlots E ticks :=
      List.mem_map.2 ⟨t, List.mem_filter.2 ⟨ht, decide_eq_true hgenesis⟩, rfl⟩
    obtain ⟨slot, hslot, hle⟩ := CatchUp.exists_lt_of_behind hslots ⟨_, hmem, hbehind⟩
    have hfresh := h.fresh
    rw [hcursor, visits_eq_run.1] at hfresh
    exact absurd (hfresh slot hslot s rfl) (Nat.not_lt.2 (Nat.le_of_lt hle))
  · intro h
    have hcursor : ∀ x ∈ tickSlots E ticks,
        CatchUp.next (initialLastProcessedSlot E restored start) ≤ x + 1 := by
      intro x hx
      obtain ⟨t, ht, rfl⟩ := List.mem_map.1 hx
      obtain ⟨ht, hgenesis⟩ := List.mem_filter.1 ht
      exact next_initialLastProcessedSlot_le (slotAt_mono (hstart t ht))
        (h t ht (of_decide_eq_true hgenesis))
    have hrun : ∃ length,
        visits E (initialLastProcessedSlot E restored start) ticks =
          List.range' (CatchUp.next (initialLastProcessedSlot E restored start)) length := by
      rw [visits_eq_run.1]
      cases hlast : (tickSlots E ticks).getLast? with
      | none =>
        rw [List.getLast?_eq_none_iff] at hlast
        rw [hlast]
        exact ⟨0, rfl⟩
      | some last => exact ⟨_, CatchUp.run_eq hslots hcursor hlast⟩
    obtain ⟨length, hrun⟩ := hrun
    refine ⟨?_, fun t ht hgenesis => ?_, ?_, fun slot hslot s hs => ?_⟩
    · rw [hrun]
      exact List.isChain_range' _ _ _
    · rw [visits_eq_run.1]
      refine CatchUp.getLast?_run_or.trans ?_
      rw [getLast?_tickSlots ht hgenesis, Option.some_or]
    · rw [visits_eq_run.2]
      refine CatchUp.hits_sublist.nodup ?_
      rw [← visits_eq_run.1, hrun]
      exact List.nodup_range'
    · rw [hrun] at hslot
      exact Nat.lt_of_lt_of_le (lt_next_initialLastProcessedSlot hs) (List.mem_range'_1.1 hslot).1

/-- The clock of the sample network in slots 3, 3 and 5: a node restored at slot 2 and started in slot 3
processes slots 3, 4 and 5. -/
theorem sample_slots_processed_once :
    visits (sampleEnv 1) (initialLastProcessedSlot (sampleEnv 1) (some 2) 3000) [3100, 3900, 5200] =
        [3, 4, 5] ∧
      ProcessedOnce (sampleEnv 1) (some 2) 3000 [3100, 3900, 5200] :=
  ⟨by decide, (slots_processed_once_iff (sampleEnv 1) (some 2) 3000 [3100, 3900, 5200]
    (by decide)).2 (by decide)⟩

/-- A node restored at slot 5 whose clock shows slot 2 processes slot 2, and then 3, 4 and 5. -/
theorem sample_slots_processed_again :
    visits (sampleEnv 1) (initialLastProcessedSlot (sampleEnv 1) (some 5) 2000) [2100, 5200] =
        [2, 3, 4, 5] ∧
      ¬ProcessedOnce (sampleEnv 1) (some 5) 2000 [2100, 5200] := by
  refine ⟨by decide, fun h => ?_⟩
  exact absurd (h.fresh 2 (by decide) 5 rfl) (by decide)

end Entangrid
