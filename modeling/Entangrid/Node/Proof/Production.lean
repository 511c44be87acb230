import Entangrid.Node.Proof.Slots
import Entangrid.Node.Proof.Speech

/-!
# One block per slot

A tick proposes and beats in the slot its clock reading shows, at most once. As long as the clock does
not go back, a node builds at most one block for a slot, so two blocks of one slot and proposer are
never its own, and it beats at most once in a slot. After a step back of the clock a slot can come
again (`pendingSlotsToProcess`).

* `Paced.write`: what one write does to the slots done so far.
* `one_block_per_slot`: the slots of the blocks and heartbeats of a run.
-/

namespace Entangrid

open Relation (ReflTransGen)

variable {E : Env} {O : Occasion} {n n' : Node}

/-! ## Slots done in order -/

/-- The slots done so far, the latest first, end at `last`. -/
structure Track (last : Option Slot) (done : List Slot) : Prop where
  descending : done.Pairwise (· > ·)
  bounded : ∀ slot ∈ done, ∃ p, last = some p ∧ slot ≤ p

namespace Track

variable {last : Option Slot} {done : List Slot} {slot : Slot}

theorem empty : Track last [] := ⟨.nil, by simp⟩

theorem lt_of_mem (h : Track last done) (hle : ∀ p, last = some p → p ≤ slot)
    (hnew : last ≠ some slot) {earlier : Slot} (hmem : earlier ∈ done) : earlier < slot := by
  obtain ⟨p, hp, hearlier⟩ := h.bounded earlier hmem
  have hp_ne : p ≠ slot := fun heq => hnew (heq ▸ hp)
  exact hearlier.trans_lt (Nat.lt_of_le_of_ne (hle p hp) hp_ne)

/-- A slot is passed. -/
theorem pass (h : Track last done) (hle : ∀ p, last = some p → p ≤ slot) (hnew : last ≠ some slot) :
    Track (some slot) done where
  descending := h.descending
  bounded _ hmem := ⟨slot, rfl, (h.lt_of_mem hle hnew hmem).le⟩

/-- Something is done in it. -/
theorem extend (h : Track last done) (hle : ∀ p, last = some p → p ≤ slot) (hnew : last ≠ some slot) :
    Track (some slot) (slot :: done) where
  descending := List.pairwise_cons.2 ⟨fun _ hmem => h.lt_of_mem hle hnew hmem, h.descending⟩
  bounded earlier hmem := by
    rcases List.mem_cons.1 hmem with rfl | hmem
    · exact ⟨earlier, rfl, le_refl _⟩
    · exact ⟨slot, rfl, (h.lt_of_mem hle hnew hmem).le⟩

end Track

/-! ## The slots of a node -/

def Node.builtSlots (n : Node) : List Slot := n.builtBlocks.map (·.header.slot)

def Node.beatSlots (n : Node) : List Slot := n.beats.map (·.slot)

/-- The clock has shown the slot. -/
def Shown (E : Env) (n : Node) (slot : Slot) : Prop :=
  ∃ i < n.clockReads, slot = E.consensus.slotAt (E.clock i)

/-- Blocks and heartbeats follow the slots up to `limit`. -/
structure Paced (E : Env) (limit : Slot) (n : Node) : Prop where
  built : Track n.lastProposedSlot n.builtSlots
  beaten : Track n.lastHeartbeatSlot n.beatSlots
  proposedLe : ∀ p, n.lastProposedSlot = some p → p ≤ limit
  beatenLe : ∀ p, n.lastHeartbeatSlot = some p → p ≤ limit
  shown : ∀ slot ∈ n.builtSlots ++ n.beatSlots, Shown E n slot

theorem Shown.mono {slot : Slot} (h : Shown E n slot) (hreads : n.clockReads ≤ n'.clockReads) :
    Shown E n' slot := by
  obtain ⟨i, hi, hslot⟩ := h
  exact ⟨i, by omega, hslot⟩

theorem Write.clockReads_le (h : Write E O n n') : n.clockReads ≤ n'.clockReads := by
  cases h with
  | quiet h =>
    have hreads : n'.clockReads = n.clockReads := congrArg Watched.clockReads h.watched
    rw [hreads]
  | readClock | propose | beat => exact Nat.le_succ _
  | _ => exact le_refl _

/-- A write that touches neither the two last slots nor the list of what was done. -/
theorem Paced.of_same {limit : Slot} (h : Paced E limit n)
    (hproposed : n'.lastProposedSlot = n.lastProposedSlot)
    (hbeaten : n'.lastHeartbeatSlot = n.lastHeartbeatSlot) (hbuilt : n'.builtSlots = n.builtSlots)
    (hbeats : n'.beatSlots = n.beatSlots) (hreads : n.clockReads ≤ n'.clockReads) :
    Paced E limit n' where
  built := by
    rw [hproposed, hbuilt]
    exact h.built
  beaten := by
    rw [hbeaten, hbeats]
    exact h.beaten
  proposedLe := by
    rw [hproposed]
    exact h.proposedLe
  beatenLe := by
    rw [hbeaten]
    exact h.beatenLe
  shown slot hslot := by
    rw [hbuilt, hbeats] at hslot
    exact (h.shown slot hslot).mono hreads

/-- An effect that is neither a block nor a heartbeat. -/
theorem Paced.withEffect {limit : Slot} (h : Paced E limit n) (effect : Effect)
    (hblock : ∀ block, effect ≠ .blockBuilt block)
    (hbeat : ∀ pulse, effect ≠ .broadcast (.heartbeatPulse pulse)) :
    Paced E limit (n.withEffect effect) := by
  refine h.of_same rfl rfl ?_ ?_ (le_refl _)
  · cases effect with
    | blockBuilt block => exact absurd rfl (hblock block)
    | _ => rfl
  · cases effect with
    | broadcast message =>
      cases message with
      | heartbeatPulse pulse => exact absurd rfl (hbeat pulse)
      | _ => rfl
    | _ => rfl

/-- **One write.** Only the current slot is proposed and beaten in, and not again. -/
theorem Paced.write {limit k : Nat} (h : Paced E limit n)
    (hlive : ∀ slot ∈ O.live, slot = limit ∧ slot = E.consensus.slotAt (E.clock k))
    (hk : k ≤ n.clockReads) (hwrite : Write E O n n') : Paced E limit n' := by
  have hreads := hwrite.clockReads_le
  cases hwrite with
  | quiet hquiet =>
    have heffects : n'.effects = n.effects := congrArg Watched.effects hquiet.watched
    refine h.of_same (congrArg Watched.lastProposedSlot hquiet.watched)
      (congrArg Watched.lastHeartbeatSlot hquiet.watched) ?_ ?_ hreads
    · rw [Node.builtSlots, Node.builtBlocks, heffects, Node.builtSlots, Node.builtBlocks]
    · rw [Node.beatSlots, Node.beats, heffects, Node.beatSlots, Node.beats]
  | note effect hnote =>
    refine h.withEffect effect (fun block heq => ?_) fun pulse heq => ?_
    · subst heq
      cases hnote
    · subst heq
      cases hnote
  | broadcast message hmay =>
    refine h.withEffect _ (fun block heq => ?_) fun pulse heq => ?_
    · cases heq
    · cases heq
      exact hmay.right
  | sendTo v message hmay =>
    apply h.withEffect
    · intro block heq
      cases heq
    · intro pulse heq
      cases heq
  | passSlot slot hslot hnew =>
    obtain ⟨rfl, -⟩ := hlive slot hslot
    exact
      { built := h.built.pass h.proposedLe hnew
        beaten := h.beaten
        proposedLe := fun p hp => (Option.some.inj hp).ge
        beatenLe := h.beatenLe
        shown := h.shown }
  | propose slot block hslot hnew hheader =>
    obtain ⟨rfl, hclock⟩ := hlive slot hslot
    have hbuilt : ({ n with
        lastProposedSlot := some slot
        clockReads := n.clockReads + 1 }.withEffect (.blockBuilt block)).builtSlots =
          slot :: n.builtSlots := by
      rw [← hheader]
      rfl
    refine ⟨?_, h.beaten, fun p hp => (Option.some.inj hp).ge, h.beatenLe, fun earlier hmem => ?_⟩
    · rw [hbuilt]
      exact h.built.extend h.proposedLe hnew
    · rw [hbuilt, List.cons_append] at hmem
      rcases List.mem_cons.1 hmem with rfl | hmem
      · exact ⟨k, Nat.lt_succ_of_le hk, hclock⟩
      · exact (h.shown earlier hmem).mono hreads
  | beat pulse hslot hnew =>
    obtain ⟨rfl, hclock⟩ := hlive pulse.slot hslot
    refine ⟨h.built, h.beaten.extend h.beatenLe hnew, h.proposedLe,
      fun p hp => (Option.some.inj hp).ge, fun earlier hmem => ?_⟩
    rcases List.mem_append.1 hmem with hmem | hmem
    · exact (h.shown earlier (List.mem_append_left _ hmem)).mono hreads
    · rcases List.mem_cons.1 hmem with rfl | hmem
      · exact ⟨k, Nat.lt_succ_of_le hk, hclock⟩
      · exact (h.shown earlier (List.mem_append_right _ hmem)).mono hreads
  | _ => exact h.of_same rfl rfl rfl rfl hreads

theorem Paced.mono {limit limit' : Slot} (h : Paced E limit n) (hle : limit ≤ limit') :
    Paced E limit' n where
  built := h.built
  beaten := h.beaten
  proposedLe p hp := (h.proposedLe p hp).trans hle
  beatenLe p hp := (h.beatenLe p hp).trans hle
  shown := h.shown

/-! ## Runs -/

/-- The slots done so far are not ahead of the clock's next reading. -/
theorem Reachable.paced (hclock : Monotone E.clock) {P : Node → Event → Prop} (hn : Reachable E P n) :
    Paced E (E.consensus.slotAt (E.clock n.clockReads)) n := by
  induction hn with
  | fresh slot =>
    exact
      { built := .empty
        beaten := .empty
        proposedLe := nofun
        beatenLe := nofun
        shown := nofun }
  | @handle n n' fuel event hn hP hrun ih =>
    have hlive : ∀ slot ∈ (Occasion.of E n event).live,
        slot = E.consensus.slotAt (E.clock n.clockReads) ∧
          slot = E.consensus.slotAt (E.clock n.clockReads) := by
      intro slot hslot
      cases event with
      | slotTick => exact ⟨hslot, hslot⟩
      | _ => exact hslot.elim
    have hchain := hn.writes hrun
    have hend : Paced E (E.consensus.slotAt (E.clock n.clockReads)) n' ∧
        n.clockReads ≤ n'.clockReads := by
      clear hrun
      induction hchain with
      | refl => exact ⟨ih, le_refl _⟩
      | tail _ hlast ih =>
        exact ⟨ih.1.write hlive ih.2 hlast, ih.2.trans hlast.clockReads_le⟩
    exact hend.1.mono (slotAt_mono (hclock hend.2))

/-- **One block per slot.** While the clock does not go back, the slots of the blocks a node builds are
strictly increasing over the run (the latest comes first in the list), and so are those of its
heartbeats; each was the slot of the present at some reading of the clock. -/
theorem one_block_per_slot (E : Env) (hclock : Monotone E.clock) (n : Node)
    (hn : Reachable E AnyEvent n) :
    n.builtSlots.Pairwise (· > ·) ∧ n.beatSlots.Pairwise (· > ·) ∧
      ∀ slot ∈ n.builtSlots ++ n.beatSlots, ∃ i < n.clockReads,
        slot = E.consensus.slotAt (E.clock i) := by
  have hpaced := hn.paced hclock
  exact ⟨hpaced.built.descending, hpaced.beaten.descending, hpaced.shown⟩

/-! ## A run over three slots -/

/-- Validator 4, whose clock moves on with every reading. -/
def movingEnv : Env := { sampleEnv 4 with clock := fun i => i * 300 }

/-- Validator 4 proposes in slots 0 and 2 and beats in each slot, though two ticks fall in slot 0. -/
theorem proposer_works_by_slot : ∃ n, Reachable movingEnv AnyEvent n ∧ n.builtSlots = [2, 0] ∧
    n.beatSlots = [2, 1, 0] ∧ n.builtSlots.Pairwise (· > ·) := by
  obtain ⟨n, hn, hslots⟩ := Reachable.of_map (E := movingEnv) (P := AnyEvent) 8
    [.slotTick, .slotTick, .slotTick, .slotTick, .slotTick] none
    (fun n => (n.builtSlots, n.beatSlots)) ([2, 0], [2, 1, 0]) (fun _ _ _ => trivial)
    (by decide +kernel)
  obtain ⟨hbuilt, hbeaten⟩ := Prod.mk.inj hslots
  have hclock : Monotone movingEnv.clock := fun i j hij => Nat.mul_le_mul_right 300 hij
  exact ⟨n, hn, hbuilt, hbeaten, (one_block_per_slot movingEnv hclock n hn).1⟩

end Entangrid
