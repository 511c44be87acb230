import Mathlib.Data.Prod.Lex
import Entangrid.Lib.TopUnion
import Entangrid.Node.Proof.Handlers

/-!
# Merging the anchors of a peer

The anchors recorded for a peer are merged with those of each status it sends: sorted by number and
hash, dropped where the hash of the anchor before is repeated, cut at the limit. A peer may send a hash
under several numbers, and what comes in between keeps them both. Where it does not (`AnchorsApart`), a
merge keeps the greatest of all anchors, one for each hash, and the order of the merges does not matter.

* `mergeSyncQcAnchors_eq`: a merge, by what it keeps of the set of all anchors.
* `anchorsApart_iff`: when a merge keeps no hash twice.
* `recordedAnchors_recordAll`: the statuses of a peer are merged one after the other, unless one is
  taken as the frontier of a restart.
* `anchor_merge_is_bounded_union`: the merge as a union, and its independence of the order of arrival.
-/

namespace Entangrid

open TopUnion (dropRepeats merged unionTop Apart)

/-! ## The order of anchors -/

/-- What anchors are compared by. -/
def SyncQcAnchor.preference (anchor : SyncQcAnchor) : Nat ×ₗ HashBytes :=
  toLex (anchor.blockNumber, anchor.blockHash)

theorem SyncQcAnchor.preference_injective : Function.Injective SyncQcAnchor.preference := by
  intro a b h
  obtain ⟨hnumber, hhash⟩ := Prod.mk.inj h
  cases a
  cases b
  subst hnumber hhash
  rfl

instance : LinearOrder SyncQcAnchor where
  le a b := a.preference ≤ b.preference
  lt a b := a.preference < b.preference
  le_refl a := le_refl a.preference
  le_trans _ _ _ := le_trans
  le_antisymm _ _ hab hba := SyncQcAnchor.preference_injective (le_antisymm hab hba)
  lt_iff_le_not_ge _ _ := lt_iff_le_not_ge
  le_total a b := le_total a.preference b.preference
  toDecidableLE a b := inferInstanceAs (Decidable (a.preference ≤ b.preference))
  toDecidableEq := inferInstance

variable {a b : SyncQcAnchor} {xs ys zs : List SyncQcAnchor} {limit : Nat}

theorem SyncQcAnchor.lt_iff : a < b ↔ a.blockNumber < b.blockNumber ∨
    a.blockNumber = b.blockNumber ∧ a.blockHash < b.blockHash :=
  Prod.Lex.lt_iff (x := a.preference) (y := b.preference)

theorem compareAnchors_eq_gt : compareAnchors a b = .gt ↔ a < b := by
  rw [SyncQcAnchor.lt_iff, compareAnchors, Ordering.then_eq_gt, Nat.compare_eq_gt, Nat.compare_eq_eq,
    eq_comm]
  show _ ∨ _ ∧ compare b.blockHash.val a.blockHash.val = .gt ↔ _
  rw [Nat.compare_eq_gt]
  rfl

theorem sortBy_compareAnchors (xs : List SyncQcAnchor) :
    sortBy compareAnchors xs = xs.insertionSort (· ≥ ·) := by
  unfold sortBy
  congr! 1
  funext a b
  exact propext ((not_congr compareAnchors_eq_gt).trans not_lt)

theorem dedupAnchors_eq (xs : List SyncQcAnchor) : dedupAnchors xs = dropRepeats (·.blockHash) xs := by
  induction xs with
  | nil => rfl
  | cons anchor rest ih =>
    rw [dedupAnchors, dropRepeats, ih]
    cases dropRepeats (·.blockHash) rest with
    | nil => rfl
    | cons next rest' => rfl

/-- **A merge, by what it keeps of the set of all anchors.** -/
theorem mergeSyncQcAnchors_eq (existing incoming : List SyncQcAnchor) (limit : Nat) :
    mergeSyncQcAnchors existing incoming limit =
      (merged (·.blockHash) limit (existing.toFinset ∪ incoming.toFinset)).sort (· ≥ ·) := by
  rw [mergeSyncQcAnchors, sortBy_compareAnchors, dedupAnchors_eq]
  apply TopUnion.mergeLists_eq

/-! ## Merges -/

theorem pairwise_mergeSyncQcAnchors (xs ys : List SyncQcAnchor) (limit : Nat) :
    (mergeSyncQcAnchors xs ys limit).Pairwise (· > ·) := by
  rw [mergeSyncQcAnchors_eq]
  exact (Finset.sortedGT_sort _).pairwise

theorem toFinset_mergeSyncQcAnchors (xs ys : List SyncQcAnchor) (limit : Nat) :
    (mergeSyncQcAnchors xs ys limit).toFinset =
      merged (·.blockHash) limit (xs.toFinset ∪ ys.toFinset) := by
  rw [mergeSyncQcAnchors_eq, Finset.sort_toFinset]

theorem mergeSyncQcAnchors_subset (xs ys : List SyncQcAnchor) (limit : Nat) :
    mergeSyncQcAnchors xs ys limit ⊆ xs ++ ys := by
  intro anchor hanchor
  have hmem : anchor ∈ (mergeSyncQcAnchors xs ys limit).toFinset := List.mem_toFinset.2 hanchor
  rw [toFinset_mergeSyncQcAnchors] at hmem
  have hunion := TopUnion.merged_subset hmem
  rwa [← List.toFinset_append, List.mem_toFinset] at hunion

theorem mergeSyncQcAnchors_comm (xs ys : List SyncQcAnchor) (limit : Nat) :
    mergeSyncQcAnchors xs ys limit = mergeSyncQcAnchors ys xs limit := by
  rw [mergeSyncQcAnchors_eq, mergeSyncQcAnchors_eq, Finset.union_comm]

theorem mergeSyncQcAnchors_self (xs : List SyncQcAnchor) (limit : Nat) :
    mergeSyncQcAnchors xs xs limit = mergeSyncQcAnchors xs [] limit := by
  rw [mergeSyncQcAnchors_eq, mergeSyncQcAnchors_eq, Finset.union_self, List.toFinset_nil,
    Finset.union_empty]

/-- Merging what has been merged before changes nothing. -/
theorem mergeSyncQcAnchors_absorb (hzs : zs ⊆ xs ++ ys) :
    mergeSyncQcAnchors (mergeSyncQcAnchors xs ys limit) zs limit = mergeSyncQcAnchors xs ys limit := by
  have hsub : zs.toFinset ⊆ xs.toFinset ∪ ys.toFinset := by
    rw [← List.toFinset_append]
    intro anchor hanchor
    exact List.mem_toFinset.2 (hzs (List.mem_toFinset.1 hanchor))
  rw [mergeSyncQcAnchors_eq, toFinset_mergeSyncQcAnchors, TopUnion.merged_absorb hsub,
    ← mergeSyncQcAnchors_eq]

/-- No hash comes back after another one with fewer than `limit` hashes above it. -/
def AnchorsApart (limit : Nat) (anchors : List SyncQcAnchor) : Prop :=
  Apart (·.blockHash) limit anchors.toFinset

/-- Of the greatest anchors of all hashes, the `limit` greatest, in descending order. -/
def greatestAnchors (limit : Nat) (anchors : List SyncQcAnchor) : List SyncQcAnchor :=
  (unionTop (·.blockHash) limit anchors.toFinset).sort (· ≥ ·)

/-- Anchors of a chain are apart: a hash has one number. -/
theorem anchorsApart_of_hash_inj (h : ∀ x ∈ xs, ∀ y ∈ xs, x.blockHash = y.blockHash → x = y) :
    AnchorsApart limit xs := by
  intro g hback
  obtain ⟨hg, e, he, f, hf, hgf, hfe, hkey, -⟩ := hback
  have heq : e = g := h e (List.mem_toFinset.1 he) g (List.mem_toFinset.1 hg) hkey
  exact absurd (hgf.trans hfe) (heq ▸ lt_irrefl _)

/-- **No hash is kept twice if and only if the anchors are apart.** -/
theorem anchorsApart_iff : AnchorsApart limit (xs ++ ys) ↔
    ((mergeSyncQcAnchors xs ys limit).map (·.blockHash)).Nodup := by
  have hnodup : (mergeSyncQcAnchors xs ys limit).Nodup :=
    (pairwise_mergeSyncQcAnchors xs ys limit).imp fun h => h.ne'
  rw [AnchorsApart, List.toFinset_append, TopUnion.apart_iff, ← toFinset_mergeSyncQcAnchors,
    List.nodup_map_iff_inj_on hnodup]
  simp only [Set.InjOn, Finset.mem_coe, List.mem_toFinset]

theorem mergeSyncQcAnchors_of_apart (hapart : AnchorsApart limit (xs ++ ys)) :
    mergeSyncQcAnchors xs ys limit = greatestAnchors limit (xs ++ ys) := by
  rw [AnchorsApart, List.toFinset_append] at hapart
  rw [mergeSyncQcAnchors_eq, TopUnion.merged_self hapart, greatestAnchors, List.toFinset_append]

theorem toFinset_foldl_merge (parts : List (List SyncQcAnchor)) (xs : List SyncQcAnchor) :
    (parts.foldl (mergeSyncQcAnchors · · limit) xs).toFinset =
      (parts.map List.toFinset).foldl
        (fun kept part => merged (·.blockHash) limit (kept ∪ part)) xs.toFinset := by
  induction parts generalizing xs with
  | nil => rfl
  | cons part rest ih =>
    rw [List.foldl_cons, ih, toFinset_mergeSyncQcAnchors, List.map_cons, List.foldl_cons]

/-- Merging one list after the other keeps the greatest of all. -/
theorem foldl_mergeSyncQcAnchors (xs : List SyncQcAnchor) (parts : List (List SyncQcAnchor))
    (hne : parts ≠ [])
    (hapart : AnchorsApart limit (xs ++ parts.flatten)) :
    parts.foldl (mergeSyncQcAnchors · · limit) xs = greatestAnchors limit (xs ++ parts.flatten) := by
  have hset : (parts.foldl (mergeSyncQcAnchors · · limit) xs).toFinset =
      unionTop (·.blockHash) limit (xs ++ parts.flatten).toFinset := by
    rw [toFinset_foldl_merge]
    refine TopUnion.foldl_merged hapart (by simpa using hne) ?_ ?_ ?_
    · intro anchor hanchor
      simp_all
    · intro part hpart anchor hanchor
      obtain ⟨list, hlist, rfl⟩ := List.mem_map.1 hpart
      have hmem : anchor ∈ list := List.mem_toFinset.1 hanchor
      exact List.mem_toFinset.2 (List.mem_append_right _ (List.mem_flatten_of_mem hlist hmem))
    · intro anchor hanchor
      have hmem := (TopUnion.mem_newest.1 (TopUnion.mem_unionTop.1 hanchor).1).1
      rw [List.mem_toFinset, List.mem_append, List.mem_flatten] at hmem
      rcases hmem with hmem | ⟨list, hlist, hmem⟩
      · exact .inl (List.mem_toFinset.2 hmem)
      · exact .inr ⟨_, List.mem_map_of_mem hlist, List.mem_toFinset.2 hmem⟩
  obtain ⟨init, last, rfl⟩ := List.eq_nil_or_concat parts |>.resolve_left hne
  rw [greatestAnchors, ← hset, List.concat_eq_append, List.foldl_append, List.foldl_cons,
    List.foldl_nil, toFinset_mergeSyncQcAnchors, ← mergeSyncQcAnchors_eq]

theorem greatestAnchors_perm (h : xs.Perm ys) : greatestAnchors limit xs = greatestAnchors limit ys := by
  rw [greatestAnchors, greatestAnchors, List.toFinset_eq_of_perm _ _ h]

theorem AnchorsApart.perm (hapart : AnchorsApart limit xs) (h : xs.Perm ys) :
    AnchorsApart limit ys := by
  rwa [AnchorsApart, ← List.toFinset_eq_of_perm _ _ h]

theorem mergeSyncQcAnchors_assoc (hapart : AnchorsApart limit (xs ++ ys ++ zs)) :
    mergeSyncQcAnchors (mergeSyncQcAnchors xs ys limit) zs limit =
      mergeSyncQcAnchors xs (mergeSyncQcAnchors ys zs limit) limit := by
  have hperm : (xs ++ [ys, zs].flatten).Perm (ys ++ [zs, xs].flatten) := by
    have hswap : (xs ++ (ys ++ zs)).Perm (ys ++ zs ++ xs) := List.perm_append_comm
    simpa using hswap
  have hleft := foldl_mergeSyncQcAnchors xs [ys, zs] (by simp)
    (by simpa using hapart)
  have hright := foldl_mergeSyncQcAnchors ys [zs, xs] (by simp)
    (AnchorsApart.perm (by simpa using hapart) hperm)
  calc mergeSyncQcAnchors (mergeSyncQcAnchors xs ys limit) zs limit
      = greatestAnchors limit (xs ++ [ys, zs].flatten) := hleft
    _ = greatestAnchors limit (ys ++ [zs, xs].flatten) := greatestAnchors_perm hperm
    _ = mergeSyncQcAnchors (mergeSyncQcAnchors ys zs limit) xs limit := hright.symm
    _ = mergeSyncQcAnchors xs (mergeSyncQcAnchors ys zs limit) limit :=
        mergeSyncQcAnchors_comm _ _ _

/-! ## Arrivals -/

/-- `restart_frontier_update`: below the height it had, the peer reports a certified block as its tip. -/
def restartFrontierUpdate (status incoming : PeerSyncStatus) : Bool :=
  status.height > incoming.height && incoming.highestQcHeight > 0 &&
    incoming.highestQcHeight == incoming.height && incoming.highestQcHash == some incoming.tipHash

/-- The anchors that the recorded statuses of `v` come with. -/
def reportedAnchors (v : ValidatorId) (arrivals : List (ValidatorId × PeerSyncStatus)) :
    List (List SyncQcAnchor) :=
  arrivals.filterMap fun (w, incoming) =>
    if w = v ∧ shouldRecordPeerSyncStatus incoming.height incoming.tipHash then
      some incoming.recentQcAnchors
    else none

namespace Node

def recordedAnchors (n : Node) (v : ValidatorId) : List SyncQcAnchor :=
  (n.peerSyncStatus[v]?.map (·.recentQcAnchors)).getD []

/-- The statuses are recorded as they arrive. -/
def recordAll (n : Node) (arrivals : List (ValidatorId × PeerSyncStatus)) : Node :=
  arrivals.foldl (fun n (v, incoming) => n.recordPeerSyncStatusWithSlot v incoming) n

/-- No status of `v` that arrives is taken as the frontier of a restart. -/
def NoRestart (v : ValidatorId) : Node → List (ValidatorId × PeerSyncStatus) → Prop
  | _, [] => True
  | n, (w, incoming) :: rest =>
    (w = v → ∀ status, n.peerSyncStatus[v]? = some status →
      restartFrontierUpdate status incoming = false) ∧
    NoRestart v (n.recordPeerSyncStatusWithSlot w incoming) rest

end Node

variable {n : Node} {v w : ValidatorId} {incoming : PeerSyncStatus}
  {arrivals arrivals' : List (ValidatorId × PeerSyncStatus)}

/-- A status that is no frontier of a restart has its anchors merged with the recorded ones. -/
theorem mergedPeerSyncStatus_anchors
    (hno : ∀ status, n.peerSyncStatus[v]? = some status →
      restartFrontierUpdate status incoming = false) :
    (n.mergedPeerSyncStatus v incoming).recentQcAnchors =
      mergeSyncQcAnchors (n.recordedAnchors v) incoming.recentQcAnchors certifiedSyncAnchorLimit := by
  unfold Node.mergedPeerSyncStatus Node.recordedAnchors
  cases hstatus : n.peerSyncStatus[v]? with
  | none => rfl
  | some status =>
    have hno' := hno status hstatus
    unfold restartFrontierUpdate at hno'
    simp only [hno']
    rfl

theorem recordedAnchors_record_other (h : w ≠ v) :
    (n.recordPeerSyncStatusWithSlot w incoming).recordedAnchors v = n.recordedAnchors v := by
  obtain ⟨statuses, heq, hframe⟩ := recordPeerSyncStatusWithSlot_eq (n := n) w incoming
  unfold Node.recordedAnchors
  rw [heq, ← hframe v h.symm]

theorem recordedAnchors_record
    (hno : ∀ status, n.peerSyncStatus[v]? = some status →
      restartFrontierUpdate status incoming = false) :
    (n.recordPeerSyncStatusWithSlot v incoming).recordedAnchors v =
      if shouldRecordPeerSyncStatus incoming.height incoming.tipHash then
        mergeSyncQcAnchors (n.recordedAnchors v) incoming.recentQcAnchors certifiedSyncAnchorLimit
      else n.recordedAnchors v := by
  unfold Node.recordPeerSyncStatusWithSlot
  split_ifs
  · rw [← mergedPeerSyncStatus_anchors hno]
    show (Option.map _ (n.peerSyncStatus.insert v (n.mergedPeerSyncStatus v incoming))[v]?).getD [] = _
    rw [Std.ExtTreeMap.getElem?_insert_self]
    rfl
  · rfl

/-- A peer whose tips are not its highest certified blocks is not seen to restart. -/
theorem noRestart_of_tips
    (h : ∀ arrival ∈ arrivals, arrival.2.highestQcHeight ≠ arrival.2.height) :
    n.NoRestart v arrivals := by
  induction arrivals generalizing n with
  | nil => trivial
  | cons arrival rest ih =>
    obtain ⟨w, incoming⟩ := arrival
    have hfirst := h _ List.mem_cons_self
    refine ⟨fun _ status _ => ?_, ih fun arrival ha => h arrival (List.mem_cons_of_mem _ ha)⟩
    simp [restartFrontierUpdate, hfirst]

/-- **What is recorded for a peer**, after any arrivals without a restart of it. -/
theorem recordedAnchors_recordAll (hno : n.NoRestart v arrivals) :
    (n.recordAll arrivals).recordedAnchors v = (reportedAnchors v arrivals).foldl
      (mergeSyncQcAnchors · · certifiedSyncAnchorLimit) (n.recordedAnchors v) := by
  induction arrivals generalizing n with
  | nil => rfl
  | cons arrival rest ih =>
    obtain ⟨w, incoming⟩ := arrival
    obtain ⟨hfirst, hrest⟩ := hno
    have hstep : n.recordAll ((w, incoming) :: rest) =
      (n.recordPeerSyncStatusWithSlot w incoming).recordAll rest := rfl
    rw [hstep, ih hrest]
    by_cases hw : w = v
    · subst hw
      rw [recordedAnchors_record (hfirst rfl)]
      split_ifs with hrecord
      · simp [hrecord, reportedAnchors]
      · simp [hrecord, reportedAnchors]
    · rw [recordedAnchors_record_other hw]
      simp [hw, reportedAnchors]

/-- **The order of arrival does not matter** for anchors that are apart. -/
theorem recordedAnchors_perm (hperm : arrivals.Perm arrivals') (hno : n.NoRestart v arrivals)
    (hno' : n.NoRestart v arrivals')
    (hapart : AnchorsApart certifiedSyncAnchorLimit
      (n.recordedAnchors v ++ (reportedAnchors v arrivals).flatten)) :
    (n.recordAll arrivals).recordedAnchors v = (n.recordAll arrivals').recordedAnchors v := by
  have hreported : (reportedAnchors v arrivals).Perm (reportedAnchors v arrivals') :=
    hperm.filterMap _
  have hall := hreported.flatten.append_left (n.recordedAnchors v)
  rw [recordedAnchors_recordAll hno, recordedAnchors_recordAll hno']
  by_cases hnil : reportedAnchors v arrivals = []
  · rw [hnil] at hreported
    rw [hnil, hreported.nil_eq]
  · have hnil' : reportedAnchors v arrivals' ≠ [] := by
      intro h
      rw [h] at hreported
      exact hnil hreported.eq_nil
    rw [foldl_mergeSyncQcAnchors _ _ hnil hapart, foldl_mergeSyncQcAnchors _ _ hnil' (hapart.perm hall),
      greatestAnchors_perm hall]

/-- **The merge of anchors is a bounded union.** It is strictly descending, no longer than the limit and
commutative, and merging what has been merged before changes nothing. Where the anchors are apart, no hash
is kept twice, what is kept are the greatest of the union without repeated hashes, the merge is
associative, and the anchors recorded for a peer without a restart do not depend on the order in which its
statuses arrive. -/
theorem anchor_merge_is_bounded_union (limit : Nat) (a b c : List SyncQcAnchor) :
    (mergeSyncQcAnchors a b limit).Pairwise (· > ·) ∧
    (mergeSyncQcAnchors a b limit).length ≤ limit ∧
    mergeSyncQcAnchors a b limit = mergeSyncQcAnchors b a limit ∧
    mergeSyncQcAnchors a a limit = mergeSyncQcAnchors a [] limit ∧
    (∀ d ⊆ a ++ b, mergeSyncQcAnchors (mergeSyncQcAnchors a b limit) d limit =
      mergeSyncQcAnchors a b limit) ∧
    mergeSyncQcAnchors (mergeSyncQcAnchors a b limit) (mergeSyncQcAnchors a b limit) limit =
      mergeSyncQcAnchors a b limit ∧
    (AnchorsApart limit (a ++ b) →
      ((mergeSyncQcAnchors a b limit).map (·.blockHash)).Nodup ∧
        mergeSyncQcAnchors a b limit = greatestAnchors limit (a ++ b)) ∧
    (AnchorsApart limit (a ++ b ++ c) →
      mergeSyncQcAnchors (mergeSyncQcAnchors a b limit) c limit =
        mergeSyncQcAnchors a (mergeSyncQcAnchors b c limit) limit) ∧
    ∀ (n : Node) (v : ValidatorId) (arrivals arrivals' : List (ValidatorId × PeerSyncStatus)),
      arrivals.Perm arrivals' → n.NoRestart v arrivals → n.NoRestart v arrivals' →
      AnchorsApart certifiedSyncAnchorLimit
        (n.recordedAnchors v ++ (reportedAnchors v arrivals).flatten) →
      (n.recordAll arrivals).recordedAnchors v = (n.recordAll arrivals').recordedAnchors v := by
  have hlength : (mergeSyncQcAnchors a b limit).length ≤ limit := by
    rw [mergeSyncQcAnchors, List.length_take]
    omega
  refine ⟨pairwise_mergeSyncQcAnchors a b limit, hlength, mergeSyncQcAnchors_comm a b limit,
    mergeSyncQcAnchors_self a limit, fun d hd => mergeSyncQcAnchors_absorb hd,
    mergeSyncQcAnchors_absorb (mergeSyncQcAnchors_subset a b limit),
    fun hapart => ⟨anchorsApart_iff.1 hapart, mergeSyncQcAnchors_of_apart hapart⟩,
    mergeSyncQcAnchors_assoc, ?_⟩
  intro n v arrivals arrivals' hperm hno hno' hapart
  exact recordedAnchors_perm hperm hno hno' hapart

/-! ## Runs -/

/-- Before and after a restart: the tip of the second status is its highest certified block. -/
def statusBeforeRestart : PeerSyncStatus :=
  { height := 9, tipHash := 9, tipLastSlot := 9, highestQcHash := some 4, highestQcHeight := 4
    recentQcAnchors := [⟨4, 4⟩] }

def statusAfterRestart : PeerSyncStatus :=
  { height := 3, tipHash := 3, tipLastSlot := 3, highestQcHash := some 3, highestQcHeight := 3
    recentQcAnchors := [⟨3, 3⟩] }

/-- A hash that a peer reports under the numbers 5 and 3, with another one under 4, is kept once or twice,
by the order of the merges. A list that is not sorted is not what its merge with itself returns. And a
peer's restart drops the anchors recorded before it. -/
theorem anchor_merge_depends_on_order :
    (mergeSyncQcAnchors (mergeSyncQcAnchors [⟨1, 5⟩] [⟨1, 3⟩] 32) [⟨2, 4⟩] 32 = [⟨1, 5⟩, ⟨2, 4⟩] ∧
      mergeSyncQcAnchors [⟨1, 5⟩] (mergeSyncQcAnchors [⟨1, 3⟩] [⟨2, 4⟩] 32) 32 =
        [⟨1, 5⟩, ⟨2, 4⟩, ⟨1, 3⟩]) ∧
    mergeSyncQcAnchors [⟨1, 3⟩, ⟨2, 4⟩] [⟨1, 3⟩, ⟨2, 4⟩] 32 = [⟨2, 4⟩, ⟨1, 3⟩] ∧
    ((Node.fresh (sampleEnv 1) (some 1)).recordAll
        [(3, statusBeforeRestart), (3, statusAfterRestart)]).recordedAnchors 3 = [⟨3, 3⟩] ∧
    ((Node.fresh (sampleEnv 1) (some 1)).recordAll
        [(3, statusAfterRestart), (3, statusBeforeRestart)]).recordedAnchors 3 =
      [⟨4, 4⟩, ⟨3, 3⟩] := by
  decide +kernel

/-- A status of a running peer that names one anchor. -/
def statusNaming (anchor : SyncQcAnchor) : PeerSyncStatus :=
  { height := 9, tipHash := 9, tipLastSlot := 9, highestQcHash := some anchor.blockHash
    highestQcHeight := anchor.blockNumber, recentQcAnchors := [anchor] }

/-- Three anchors of a chain, merged either way, and two statuses in either order. -/
theorem sample_anchors_in_any_order :
    mergeSyncQcAnchors (mergeSyncQcAnchors [⟨7, 4⟩] [⟨8, 5⟩] 2) [⟨7, 4⟩, ⟨6, 3⟩] 2 =
      mergeSyncQcAnchors [⟨7, 4⟩] (mergeSyncQcAnchors [⟨8, 5⟩] [⟨7, 4⟩, ⟨6, 3⟩] 2) 2 ∧
    ((Node.fresh (sampleEnv 1) (some 1)).recordAll
        [(3, statusNaming ⟨7, 4⟩), (3, statusNaming ⟨8, 5⟩)]).recordedAnchors 3 =
      ((Node.fresh (sampleEnv 1) (some 1)).recordAll
        [(3, statusNaming ⟨8, 5⟩), (3, statusNaming ⟨7, 4⟩)]).recordedAnchors 3 := by
  obtain ⟨-, -, -, -, -, -, -, hassoc, hruns⟩ :=
    anchor_merge_is_bounded_union 2 [⟨7, 4⟩] [⟨8, 5⟩] [⟨7, 4⟩, ⟨6, 3⟩]
  refine ⟨hassoc (anchorsApart_of_hash_inj (by decide)), ?_⟩
  apply hruns
  · exact List.Perm.swap _ _ []
  · exact noRestart_of_tips (by decide)
  · exact noRestart_of_tips (by decide)
  · exact anchorsApart_of_hash_inj (by decide +kernel)

end Entangrid
