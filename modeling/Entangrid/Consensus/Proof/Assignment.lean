import Entangrid.Lib.MapTotal
import Entangrid.Lib.Ring
import Entangrid.Sample
import Mathlib.Data.List.Rotate

/-!
# Witness assignment

The witnesses of a validator are its successors on the ring of the sorted ids. Rotating the ring
moves every validator and its successors alike, so the epoch seed has no influence on them.

* `relationsAt_rotate`: the relations at a position of the rotated ring are those at the position it
  came from.
* `assignmentsForEpoch_getElem?`: the assignment of a validator in terms of its place among the
  sorted ids, without the rotation.
* `witnesses_never_rotate`: whatever the seeds, the witness sets are the same.
* `witnesses_are_balanced`: every validator has equally many witnesses and is a witness equally often.
-/

namespace Entangrid

namespace ConsensusEngine

variable {C : ConsensusEngine}

/-- The engine with one value for every epoch seed. -/
def withSeed (C : ConsensusEngine) (seed : HashBytes) : ConsensusEngine :=
  { C with hashing := { C.hashing with hashMany := fun _ _ => seed } }

/-- Some validator has different witnesses under two seeds. -/
def Rotates (C : ConsensusEngine) : Prop :=
  ∃ (epoch epoch' : Epoch) (seed seed' : HashBytes) (validatorId : ValidatorId),
    ((C.withSeed seed).assignmentsForEpoch epoch)[validatorId]?.map (·.witnesses) ≠
      ((C.withSeed seed').assignmentsForEpoch epoch')[validatorId]?.map (·.witnesses)

/-! ## The ring of ids -/

theorem mem_validatorIds {v : ValidatorId} :
    v ∈ C.validatorIds ↔ v ∈ C.genesis.validators.map (·.validatorId) :=
  (List.perm_insertionSort _ _).mem_iff

theorem nodup_validatorIds (hids : (C.genesis.validators.map (·.validatorId)).Nodup) :
    C.validatorIds.Nodup :=
  (List.perm_insertionSort _ _).nodup_iff.2 hids

theorem getD_rotate {ids : List ValidatorId} (hids : ids ≠ []) (rotation i : Nat) :
    (ids.rotate rotation).getD (i % ids.length) 0 = ids.getD ((i + rotation) % ids.length) 0 := by
  have hi : i % ids.length < ids.length := Nat.mod_lt _ (List.length_pos_iff.2 hids)
  rw [List.getD_eq_getElem?_getD, List.getD_eq_getElem?_getD, List.getElem?_rotate hi,
    Nat.mod_add_mod]

/-- The relations at a position of the rotated ring are those at the position it came from. -/
theorem relationsAt_rotate {ids : List ValidatorId} (hids : ids ≠ []) (rotation position : Nat)
    (v : ValidatorId) :
    C.relationsAt (ids.rotate rotation) position v =
      C.relationsAt ids ((position + rotation) % ids.length) v := by
  unfold relationsAt
  simp only [List.length_rotate]
  congr 1
  refine List.map_congr_left fun offset _ => ?_
  rw [getD_rotate hids, Nat.mod_add_mod]
  congr 2
  omega

/-- On a ring without repetitions, a validator is at one position before and one after a rotation. -/
theorem idxOf_of_rotate {ids : List ValidatorId} (hids : ids.Nodup) {rotation position : Nat}
    {v : ValidatorId} (hv : (ids.rotate rotation)[position]? = some v) :
    (position + rotation) % ids.length = ids.idxOf v := by
  have hposition : position < ids.length := by
    simpa using (List.getElem?_eq_some_iff.1 hv).1
  rw [List.getElem?_rotate hposition] at hv
  obtain ⟨hlt, rfl⟩ := List.getElem?_eq_some_iff.1 hv
  exact (hids.idxOf_getElem _ hlt).symm

/-! ## The assignment of an epoch -/

/-- The assignment of a validator: its successors among the sorted ids. -/
theorem assignmentsForEpoch_getElem? (hids : (C.genesis.validators.map (·.validatorId)).Nodup)
    (epoch : Epoch) {v : ValidatorId} (hv : v ∈ C.validatorIds) :
    (C.assignmentsForEpoch epoch)[v]? =
      some
        { epoch, validatorId := v
          witnesses := C.relationsAt C.validatorIds (C.validatorIds.idxOf v) v
          relayTargets := C.relationsAt C.validatorIds (C.validatorIds.idxOf v) v } := by
  have hnodup : C.validatorIds.Nodup := nodup_validatorIds hids
  have hkeys : ((C.rotatedIds epoch).zipIdx.map Prod.fst).Nodup := by
    rw [List.zipIdx_map_fst]
    exact List.nodup_rotate.2 hnodup
  obtain ⟨position, hposition⟩ := List.mem_iff_getElem?.1 (List.mem_rotate.2 hv :
    v ∈ C.rotatedIds epoch)
  have hmem : (v, position) ∈ (C.rotatedIds epoch).zipIdx :=
    List.mem_zipIdx_iff_getElem?.2 hposition
  let assignmentOf (e : ValidatorId × Nat) : EpochAssignment :=
    { epoch, validatorId := e.1
      witnesses := C.relationsAt (C.rotatedIds epoch) e.2 e.1
      relayTargets := C.relationsAt (C.rotatedIds epoch) e.2 e.1 }
  have hentry : ((C.rotatedIds epoch).zipIdx.foldl (fun m e => m.insert e.1 (assignmentOf e))
      (∅ : BTreeMap ValidatorId EpochAssignment))[v]? = some (assignmentOf (v, position)) :=
    Std.ExtTreeMap.getElem?_foldl_insert_of_nodup hkeys hmem
  have hrelations : C.relationsAt (C.rotatedIds epoch) position v =
      C.relationsAt C.validatorIds (C.validatorIds.idxOf v) v := by
    rw [rotatedIds, relationsAt_rotate (List.ne_nil_of_mem hv), idxOf_of_rotate hnodup hposition]
  simp only [assignmentOf, hrelations] at hentry
  exact hentry

theorem assignmentsForEpoch_getElem?_of_notMem (epoch : Epoch) {v : ValidatorId}
    (hv : v ∉ C.validatorIds) : (C.assignmentsForEpoch epoch)[v]? = none := by
  have hkeys : v ∉ (C.rotatedIds epoch).zipIdx.map Prod.fst := by
    rw [List.zipIdx_map_fst]
    exact fun h => hv (List.mem_rotate.1 h)
  exact (Std.ExtTreeMap.getElem?_foldl_insert_of_notMem hkeys).trans (by simp)

/-- The witnesses do not depend on the epoch, nor on its seed. -/
theorem witnesses_withSeed (hids : (C.genesis.validators.map (·.validatorId)).Nodup)
    (epoch : Epoch) (seed : HashBytes) (v : ValidatorId) :
    ((C.withSeed seed).assignmentsForEpoch epoch)[v]?.map (·.witnesses) =
      (C.assignmentsForEpoch 0)[v]?.map (·.witnesses) := by
  by_cases hv : v ∈ C.validatorIds
  · rw [assignmentsForEpoch_getElem? hids 0 hv,
      assignmentsForEpoch_getElem? (C := C.withSeed seed) hids epoch hv]
    rfl
  · rw [assignmentsForEpoch_getElem?_of_notMem 0 hv,
      assignmentsForEpoch_getElem?_of_notMem (C := C.withSeed seed) epoch hv]

/-- **Witnesses never rotate**: in every genesis with pairwise distinct ids, no two epochs and no two
seeds give any validator different witnesses. -/
theorem witnesses_never_rotate (C : ConsensusEngine)
    (hids : (C.genesis.validators.map (·.validatorId)).Nodup) : ¬C.Rotates := by
  rintro ⟨epoch, epoch', seed, seed', v, hne⟩
  exact hne ((witnesses_withSeed hids epoch seed v).trans (witnesses_withSeed hids epoch' seed' v).symm)

/-- The four sample validators with two witnesses each. -/
theorem sample_witnesses_never_rotate :
    ((sampleEnv 1).consensus.genesis.validators.map (·.validatorId)).Nodup ∧
      ¬(sampleEnv 1).consensus.Rotates :=
  ⟨by decide, witnesses_never_rotate (sampleEnv 1).consensus (by decide)⟩

/-- Four distinct validators and two witnesses for each: validator 1 is watched by 2 and 3 whatever the
seed. -/
theorem sample_witnesses_are_fixed :
    ((sampleEnv 1).consensus.genesis.validators.map (·.validatorId)).Nodup ∧
      1 ≤ (sampleEnv 1).consensus.genesis.witnessCount ∧
      (sampleEnv 1).consensus.genesis.witnessCount + 2 ≤
        (sampleEnv 1).consensus.genesis.validators.length ∧
      ¬(sampleEnv 1).consensus.Rotates := by
  refine ⟨by decide, by decide, by decide, ?_⟩
  rintro ⟨epoch, epoch', seed, seed', v, hne⟩
  exact hne ((witnesses_withSeed (by decide) epoch seed v).trans
    (witnesses_withSeed (by decide) epoch' seed' v).symm)

/-! ## A balanced design -/

/-- How many witnesses a validator has. -/
def relationCount (C : ConsensusEngine) : Nat :=
  min C.genesis.witnessCount (C.genesis.validators.length - 1)

theorem length_validatorIds : C.validatorIds.length = C.genesis.validators.length := by
  rw [validatorIds, List.length_insertionSort, List.length_map]

theorem relationCount_lt {v : ValidatorId} (hv : v ∈ C.validatorIds) :
    C.relationCount < C.validatorIds.length := by
  have hpos := List.length_pos_of_mem hv
  rw [relationCount, ← length_validatorIds]
  omega

/-- The relations of a validator are its successors on the ring: it is none of them itself. -/
theorem relationsAt_eq_successors (hids : (C.genesis.validators.map (·.validatorId)).Nodup)
    {v : ValidatorId} (hv : v ∈ C.validatorIds) :
    C.relationsAt C.validatorIds (C.validatorIds.idxOf v) v =
      Ring.successors C.validatorIds 0 C.relationCount (C.validatorIds.idxOf v) := by
  have hlt : C.validatorIds.idxOf v < C.validatorIds.length := List.idxOf_lt_length_of_mem hv
  have hself := Ring.getElem_notMem_successors (d := 0) (nodup_validatorIds hids)
    (relationCount_lt hv) hlt
  rw [List.getElem_idxOf hlt] at hself
  have hall : ∀ w ∈ Ring.successors C.validatorIds 0 C.relationCount (C.validatorIds.idxOf v),
      decide (w ≠ v) = true := by
    intro w hw
    refine decide_eq_true fun heq => hself ?_
    rwa [heq] at hw
  rw [relationCount, ← length_validatorIds] at hall ⊢
  exact List.filter_eq_self.2 hall

/-- The successors of a validator among the sorted ids. -/
def witnessesOf (C : ConsensusEngine) (v : ValidatorId) : List ValidatorId :=
  Ring.successors C.validatorIds 0 C.relationCount (C.validatorIds.idxOf v)

/-- The assignments of an epoch, as a map of the ids. -/
theorem assignmentsForEpoch_eq_some (hids : (C.genesis.validators.map (·.validatorId)).Nodup)
    {epoch : Epoch} {v : ValidatorId} {a : EpochAssignment} :
    (C.assignmentsForEpoch epoch)[v]? = some a ↔ v ∈ C.validatorIds ∧
      a = { epoch, validatorId := v, witnesses := C.witnessesOf v
            relayTargets := C.witnessesOf v } := by
  by_cases hv : v ∈ C.validatorIds
  · rw [assignmentsForEpoch_getElem? hids epoch hv, relationsAt_eq_successors hids hv]
    simp only [hv, true_and, Option.some.injEq, witnessesOf]
    exact eq_comm
  · rw [assignmentsForEpoch_getElem?_of_notMem epoch hv]
    simp [hv]

/-- The witnesses of a validator that has an assignment. -/
theorem serviceCommitteeFor_eq (hids : (C.genesis.validators.map (·.validatorId)).Nodup)
    (epoch : Epoch) {v : ValidatorId} (hv : v ∈ C.validatorIds) :
    C.serviceCommitteeFor epoch v = C.witnessesOf v := by
  rw [serviceCommitteeFor, assignmentFor, (assignmentsForEpoch_eq_some hids).2 ⟨hv, rfl⟩]
  rfl

theorem serviceCommitteeFor_of_notMem (epoch : Epoch) {v : ValidatorId} (hv : v ∉ C.validatorIds) :
    C.serviceCommitteeFor epoch v = [] := by
  rw [serviceCommitteeFor, assignmentFor, assignmentsForEpoch_getElem?_of_notMem epoch hv]
  rfl

/-- The service committee of a validator has no member twice. -/
theorem nodup_serviceCommitteeFor (hids : (C.genesis.validators.map (·.validatorId)).Nodup)
    (epoch : Epoch) (v : ValidatorId) : (C.serviceCommitteeFor epoch v).Nodup := by
  by_cases hv : v ∈ C.validatorIds
  · rw [serviceCommitteeFor_eq hids epoch hv]
    exact Ring.nodup_successors (nodup_validatorIds hids) (relationCount_lt hv)
  · rw [serviceCommitteeFor_of_notMem epoch hv]
    exact List.nodup_nil

/-- The positions that a validator follows are as many as it has witnesses. -/
theorem countP_witnessesOf (hids : (C.genesis.validators.map (·.validatorId)).Nodup)
    {w : ValidatorId} (hw : w ∈ C.validatorIds) :
    C.validatorIds.countP (fun v => (C.witnessesOf v).contains w) = C.relationCount := by
  have hnodup := nodup_validatorIds hids
  have hlt : C.validatorIds.idxOf w < C.validatorIds.length := List.idxOf_lt_length_of_mem hw
  have hcount := Ring.countP_mem_successors (d := 0) hnodup (relationCount_lt hw) hlt
  rw [List.getElem_idxOf hlt] at hcount
  have hpositions :
      (List.range C.validatorIds.length).map (fun i => C.validatorIds.getD i 0) = C.validatorIds := by
    refine List.ext_getElem (by simp) fun i _ hi => ?_
    simp [List.getD_eq_getElem?_getD, hi]
  calc C.validatorIds.countP (fun v => (C.witnessesOf v).contains w)
      = ((List.range C.validatorIds.length).map fun i => C.validatorIds.getD i 0).countP
          (fun v => (C.witnessesOf v).contains w) := by
        rw [hpositions]
    _ = (List.range C.validatorIds.length).countP (fun i =>
          (C.witnessesOf (C.validatorIds.getD i 0)).contains w) := by
        rw [List.countP_map]
        rfl
    _ = C.relationCount := by
        rw [← hcount]
        refine List.countP_congr fun i hi => ?_
        have hi := List.mem_range.1 hi
        simp [witnessesOf, List.getD_eq_getElem?_getD, hi, hnodup.idxOf_getElem]

/-- **Witness assignment is a balanced design.** In every genesis with distinct ids and in every epoch,
exactly the validators have an assignment; its witnesses are `k` distinct validators other than itself
and are its relay targets, and every validator is a witness in `k` assignments. -/
theorem witnesses_are_balanced (C : ConsensusEngine)
    (hids : (C.genesis.validators.map (·.validatorId)).Nodup) (epoch : Epoch) :
    (∀ v, v ∈ C.genesis.validators.map (·.validatorId) ↔
      ((C.assignmentsForEpoch epoch)[v]?).isSome) ∧
    (∀ (v : ValidatorId) (a : EpochAssignment), (C.assignmentsForEpoch epoch)[v]? = some a →
      a.witnesses.length = min C.genesis.witnessCount (C.genesis.validators.length - 1) ∧
        a.witnesses.Nodup ∧ (∀ w ∈ a.witnesses, w ∈ C.genesis.validators.map (·.validatorId)) ∧
        v ∉ a.witnesses ∧ a.relayTargets = a.witnesses) ∧
    ∀ w ∈ C.genesis.validators.map (·.validatorId),
      (C.assignmentsForEpoch epoch).toList.countP (fun entry => entry.2.witnesses.contains w) =
        min C.genesis.witnessCount (C.genesis.validators.length - 1) := by
  have hnodup := nodup_validatorIds hids
  refine ⟨fun v => ?_, fun v a ha => ?_, fun w hw => ?_⟩
  · rw [← mem_validatorIds, Option.isSome_iff_exists]
    constructor
    · intro hv
      exact ⟨_, (assignmentsForEpoch_eq_some hids).2 ⟨hv, rfl⟩⟩
    · rintro ⟨a, ha⟩
      exact ((assignmentsForEpoch_eq_some hids).1 ha).1
  · obtain ⟨hv, rfl⟩ := (assignmentsForEpoch_eq_some hids).1 ha
    have hlt : C.validatorIds.idxOf v < C.validatorIds.length := List.idxOf_lt_length_of_mem hv
    have hself := Ring.getElem_notMem_successors (d := 0) hnodup (relationCount_lt hv) hlt
    rw [List.getElem_idxOf hlt] at hself
    refine ⟨Ring.length_successors, Ring.nodup_successors hnodup (relationCount_lt hv), ?_, hself, rfl⟩
    intro w hw
    exact mem_validatorIds.1 (Ring.mem_of_mem_successors (List.ne_nil_of_mem hv) hw)
  · have hw := mem_validatorIds.2 hw
    have hentries : (C.assignmentsForEpoch epoch).toList.Perm (C.validatorIds.map fun v =>
        (v, { epoch, validatorId := v, witnesses := C.witnessesOf v
              relayTargets := C.witnessesOf v })) := by
      refine (List.perm_ext_iff_of_nodup (Std.ExtTreeMap.nodup_toList _) ?_).2 fun e => ?_
      · exact hnodup.map fun v v' h => (Prod.mk.inj h).1
      · obtain ⟨v, a⟩ := e
        rw [Std.ExtTreeMap.mem_toList_iff_getElem?_eq_some, assignmentsForEpoch_eq_some hids,
          List.mem_map]
        constructor
        · rintro ⟨hv, rfl⟩
          exact ⟨v, hv, rfl⟩
        · rintro ⟨v', hv', h⟩
          obtain ⟨rfl, rfl⟩ := Prod.mk.inj h
          exact ⟨hv', rfl⟩
    rw [hentries.countP_eq, List.countP_map]
    exact countP_witnessesOf hids hw

/-- The four sample validators with two witnesses each, in epoch 3. -/
theorem sample_witnesses_are_balanced :
    ((sampleEnv 1).consensus.genesis.validators.map (·.validatorId)).Nodup ∧
    ∀ w ∈ (sampleEnv 1).consensus.genesis.validators.map (·.validatorId),
      ((sampleEnv 1).consensus.assignmentsForEpoch 3).toList.countP
        (fun entry => entry.2.witnesses.contains w) = 2 :=
  ⟨by decide, (witnesses_are_balanced (sampleEnv 1).consensus (by decide) 3).2.2⟩

end ConsensusEngine

end Entangrid
