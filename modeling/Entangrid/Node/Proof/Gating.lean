import Entangrid.Node.Run
import Entangrid.Node.Proof.OneVote

/-!
# What the gating of a proposer goes by

`v2_gating_state` looks at the valid aggregates in the window of epochs before the current one and,
when there are none, at the latest earlier aggregate. So a rejection rests on some valid earlier
aggregate, and the one of the last epoch may be missing.

* `GatedBy`: the aggregates that a decision can rest on.
* `rejection_has_prior_evidence`: no rejection without one, and what is decided then.
-/

namespace Entangrid

variable {E : Env} {n : Node} {v : ValidatorId} {e : Nat}

/-- The epochs whose aggregates are weighed at epoch `e`. -/
def InWindow (E : Env) (e e' : Nat) : Prop :=
  e' < e ∧ e ≤ e' + max E.config.featureFlags.serviceScoreWindowEpochs 1

/-- The gating of `v` at `e` can rest on this aggregate of epoch `e'`: it is in the window, or the
window has no valid one and it is the latest before `e`. -/
structure GatedBy (E : Env) (n : Node) (v : ValidatorId) (e e' : Nat)
    (aggregate : ServiceAggregate) : Prop where
  before : e' < e
  held : n.serviceAggregates[(v, e')]? = some aggregate
  valid : aggregateIsValid E aggregate = true
  recent : InWindow E e e' ∨
    (∀ e'' b, InWindow E e e'' → n.serviceAggregates[(v, e'')]? = some b →
      aggregateIsValid E b = false) ∧
    ∀ e'', e' < e'' → e'' < e → n.serviceAggregates[(v, e'')]? = none

/-! ## Ranges -/

theorem mem_aggregatesInRange {first last : Nat} {aggregate : ServiceAggregate} :
    aggregate ∈ aggregatesInRange n v first last ↔
      ∃ e', first ≤ e' ∧ e' ≤ last ∧ n.serviceAggregates[(v, e')]? = some aggregate := by
  simp only [aggregatesInRange, List.mem_map, List.mem_filter,
    Std.ExtTreeMap.mem_toList_iff_getElem?_eq_some, Prod.exists, Bool.and_eq_true, beq_iff_eq,
    decide_eq_true_eq]
  constructor
  · rintro ⟨w, e', a, ⟨hheld, ⟨rfl, hfirst⟩, hlast⟩, rfl⟩
    exact ⟨e', hfirst, hlast, hheld⟩
  · rintro ⟨e', hfirst, hlast, hheld⟩
    exact ⟨v, e', aggregate, ⟨hheld, ⟨rfl, hfirst⟩, hlast⟩, rfl⟩

/-- The keys of one validator are ordered by epoch. -/
theorem epoch_lt_of_compare {w : ValidatorId} {e e' : Nat}
    (h : compare (w, e) (w, e') = Ordering.lt) : e < e' := by
  have hthen : (compare w w).then (compare e e') = .lt := h
  rw [Nat.compare_eq_eq.2 rfl] at hthen
  exact Nat.compare_eq_lt.1 hthen

/-- The last aggregate of a range has the greatest epoch. -/
theorem aggregatesInRange_getLast? {first last : Nat} {aggregate : ServiceAggregate}
    (h : (aggregatesInRange n v first last).getLast? = some aggregate) :
    ∃ e', first ≤ e' ∧ e' ≤ last ∧ n.serviceAggregates[(v, e')]? = some aggregate ∧
      ∀ e'', e' < e'' → e'' ≤ last → n.serviceAggregates[(v, e'')]? = none := by
  unfold aggregatesInRange at h
  rw [List.getLast?_map] at h
  obtain ⟨⟨⟨w, e'⟩, a⟩, hlast, rfl⟩ := Option.map_eq_some_iff.1 h
  have hmem := List.mem_of_getLast? hlast
  simp only [List.mem_filter, Std.ExtTreeMap.mem_toList_iff_getElem?_eq_some, Bool.and_eq_true,
    beq_iff_eq, decide_eq_true_eq] at hmem
  obtain ⟨hheld, ⟨rfl, hfirst⟩, hle⟩ := hmem
  refine ⟨e', hfirst, hle, hheld, fun e'' hlt hle'' => ?_⟩
  by_contra hsome
  obtain ⟨b, hb⟩ := Option.ne_none_iff_exists'.1 hsome
  -- a later epoch would stand behind the last one
  obtain ⟨front, hfront⟩ := List.getLast?_eq_some_iff.1 hlast
  have hordered := (Std.ExtTreeMap.ordered_keys_toList (t := n.serviceAggregates)).filter fun x =>
    x.1.1 == w && x.1.2 ≥ first && x.1.2 ≤ last
  rw [hfront] at hordered
  have hb' : ((w, e''), b) ∈ front ++ [((w, e'), a)] := by
    rw [← hfront]
    have hfirst'' : first ≤ e'' := hfirst.trans (Nat.le_of_lt hlt)
    simp only [List.mem_filter, Std.ExtTreeMap.mem_toList_iff_getElem?_eq_some, Bool.and_eq_true,
      beq_self_eq_true, decide_eq_true_eq]
    exact ⟨hb, ⟨trivial, hfirst''⟩, hle''⟩
  rcases List.mem_append.1 hb' with hb' | hb'
  · have hcompare := (List.pairwise_append.1 hordered).2.2 _ hb' _ List.mem_cons_self
    exact Nat.lt_asymm hlt (epoch_lt_of_compare hcompare)
  · have heq : e'' = e' := congrArg (fun x => x.1.2) (List.mem_singleton.1 hb')
    exact absurd heq (Nat.ne_of_gt hlt)

/-! ## Decisions -/

section
variable (he : 1 ≤ e)
include he

theorem mem_window {aggregate : ServiceAggregate} :
    aggregate ∈ (aggregatesInRange n v (e - max E.config.featureFlags.serviceScoreWindowEpochs 1)
        (e - 1)).filter (aggregateIsValid E) ↔
      ∃ e', InWindow E e e' ∧ n.serviceAggregates[(v, e')]? = some aggregate ∧
        aggregateIsValid E aggregate = true := by
  rw [List.mem_filter, mem_aggregatesInRange]
  constructor
  · rintro ⟨⟨e', hfirst, hlast, hheld⟩, hvalid⟩
    exact ⟨e', ⟨by omega, by omega⟩, hheld, hvalid⟩
  · rintro ⟨e', ⟨hlt, hle⟩, hheld, hvalid⟩
    exact ⟨⟨e', by omega, by omega, hheld⟩, hvalid⟩

/-- There is an earlier aggregate if and only if there is a latest one. -/
theorem latestServiceAggregateBeforeEpoch_eq_none :
    latestServiceAggregateBeforeEpoch n v e = none ↔
      ∀ e' < e, n.serviceAggregates[(v, e')]? = none := by
  rw [latestServiceAggregateBeforeEpoch, if_neg (Nat.ne_of_gt he), List.getLast?_eq_none_iff]
  constructor
  · intro hnil e' hlt
    by_contra hsome
    obtain ⟨b, hb⟩ := Option.ne_none_iff_exists'.1 hsome
    have hmem : b ∈ aggregatesInRange n v 0 (e - 1) :=
      mem_aggregatesInRange.2 ⟨e', Nat.zero_le _, by omega, hb⟩
    rw [hnil] at hmem
    cases hmem
  · intro hnone
    refine List.eq_nil_iff_forall_not_mem.2 fun a ha => ?_
    obtain ⟨e', -, hle, hheld⟩ := mem_aggregatesInRange.1 ha
    rw [hnone e' (by omega)] at hheld
    cases hheld

/-- Evidence is found where there is an aggregate to go by. -/
theorem weightedRecentServiceEvidence_isSome :
    (weightedRecentServiceEvidenceBeforeEpoch E n v e).isSome ↔ ∃ e' a, GatedBy E n v e e' a := by
  unfold weightedRecentServiceEvidenceBeforeEpoch
  rw [if_neg (Nat.ne_of_gt he)]
  dsimp only
  cases hrecent : ((aggregatesInRange n v (e - max E.config.featureFlags.serviceScoreWindowEpochs 1)
      (e - 1)).filter (aggregateIsValid E)).getLast? with
  | some a =>
    obtain ⟨e', hwindow, hheld, hvalid⟩ := (mem_window he).1 (List.mem_of_getLast? hrecent)
    exact iff_of_true rfl ⟨e', a, hwindow.1, hheld, hvalid, .inl hwindow⟩
  | none =>
    have hinvalid : ∀ e'' b, InWindow E e e'' → n.serviceAggregates[(v, e'')]? = some b →
        aggregateIsValid E b = false := fun e'' b hwindow hheld => by
      by_contra hvalid
      have hmem := (mem_window he).2 ⟨e'', hwindow, hheld, by simpa using hvalid⟩
      rw [List.getLast?_eq_none_iff.1 hrecent] at hmem
      cases hmem
    cases hlatest : latestServiceAggregateBeforeEpoch n v e with
    | none =>
      refine iff_of_false (by simp) ?_
      rintro ⟨e', a, hgated⟩
      have hnone := (latestServiceAggregateBeforeEpoch_eq_none he).1 hlatest e' hgated.before
      rw [hgated.held] at hnone
      cases hnone
    | some a =>
      rw [latestServiceAggregateBeforeEpoch, if_neg (Nat.ne_of_gt he)] at hlatest
      obtain ⟨e', -, hle, hheld, hlater⟩ := aggregatesInRange_getLast? hlatest
      cases hvalid : aggregateIsValid E a with
      | true =>
        refine iff_of_true (by simp [hvalid]) ⟨e', a, by omega, hheld, hvalid, .inr ⟨hinvalid, ?_⟩⟩
        exact fun e'' hlt hlt' => hlater e'' hlt (by omega)
      | false =>
        refine iff_of_false (by simp [hvalid]) ?_
        rintro ⟨d, b, hgated⟩
        rcases hgated.recent with hwindow | ⟨-, hnone⟩
        · exact absurd hgated.valid (by simp [hinvalid d b hwindow hgated.held])
        · -- the latest one is invalid, so it is not this one
          have hne : d ≠ e' := by
            rintro rfl
            obtain rfl := Option.some.inj (hheld.symm.trans hgated.held)
            exact absurd hgated.valid (by simp [hvalid])
          rcases Nat.lt_or_gt_of_ne hne with hlt | hgt
          · rw [hnone e' hlt (by omega)] at hheld
            cases hheld
          · have := hlater d hgt (by have := hgated.before; omega)
            rw [hgated.held] at this
            cases this

end

/-- **A rejection rests on a valid earlier aggregate**, of the window or else the latest, and on a
score below the threshold. Without such an aggregate the proposer is let through: for no evidence when
there is no earlier aggregate at all, for insufficient evidence otherwise. -/
theorem rejection_has_prior_evidence (E : Env) (n : Node) (v : ValidatorId) (e : Nat)
    (he : 1 ≤ e) :
    (∀ score, v2GatingState E n v e = .rejectScore score →
      score.lt (serviceGatingThreshold E) = true ∧ ∃ e' a, GatedBy E n v e e' a) ∧
    ((∀ e' a, ¬GatedBy E n v e e' a) →
      ((∀ e' < e, n.serviceAggregates[(v, e')]? = none) → v2GatingState E n v e = .allowNoEvidence) ∧
      ((∃ e' < e, n.serviceAggregates[(v, e')]? ≠ none) →
        v2GatingState E n v e = .allowInsufficientEvidence)) := by
  have hsome := weightedRecentServiceEvidence_isSome (E := E) (n := n) (v := v) he
  unfold v2GatingState v2ServiceEvidenceState
  rw [if_neg (Nat.ne_of_gt he)]
  cases hevidence : weightedRecentServiceEvidenceBeforeEpoch E n v e with
  | some evidence =>
    obtain ⟨latestEpoch, counters, score⟩ := evidence
    obtain ⟨e', a, hgated⟩ := hsome.1 (by rw [hevidence]; rfl)
    refine ⟨fun s hs => ?_, fun hnone => absurd hgated (hnone e' a)⟩
    dsimp only at hs
    split_ifs at hs with hlow
    obtain rfl := V2GatingState.rejectScore.inj hs
    exact ⟨hlow, e', a, hgated⟩
  | none =>
    refine ⟨fun s hs => ?_, fun _ => ⟨fun hnone => ?_, fun ⟨e', hlt, hheld⟩ => ?_⟩⟩
    · dsimp only at hs
      split at hs
      · next heq =>
        split_ifs at heq
      · cases hs
      · cases hs
    · rw [(latestServiceAggregateBeforeEpoch_eq_none he).2 hnone]
      rfl
    · have hlatest : latestServiceAggregateBeforeEpoch n v e ≠ none := fun hnone =>
        hheld ((latestServiceAggregateBeforeEpoch_eq_none he).1 hnone e' hlt)
      obtain ⟨a, ha⟩ := Option.ne_none_iff_exists'.1 hlatest
      rw [ha]
      rfl

/-! ## Runs -/

/-- A sample node with a gating threshold; validators without any service score nothing. -/
def gatingEnv : Env :=
  { sampleEnv 1 with
    config := { (sampleEnv 1).config with
      featureFlags := { sampleFlags with serviceGatingThreshold := .quarter } }
    score := fun counters _ =>
      if counters.uptimeWindows + counters.timelyDeliveries + counters.distinctPeers = 0 then .zero
      else .one }

/-- The committee of epoch 2 saw nothing of validator 1. -/
def lowAggregate : ServiceAggregate :=
  serviceAggregateForSubject gatingEnv.consensus 1 2
    { totalWindows := 5, expectedDeliveries := 5, expectedPeers := 2 }

theorem low_run : (runEvents gatingEnv 8 [.received 2 (.serviceAggregate lowAggregate)]
    (.fresh gatingEnv (some 20))).map (fun n =>
      (n.serviceAggregates[(1, 3)]?, v2GatingState gatingEnv n 1 4)) = some (none, .rejectScore .zero) := by
  decide +kernel

/-- That aggregate is what rejects validator 1 at epoch 4. -/
theorem low_aggregate_is_evidence : ∃ n, Reachable gatingEnv AnyEvent n ∧
    v2GatingState gatingEnv n 1 4 = .rejectScore .zero ∧ ∃ e' a, GatedBy gatingEnv n 1 4 e' a := by
  obtain ⟨n, hn, hvalues⟩ := Reachable.of_map (P := AnyEvent) 8 _ _ _ _ (fun _ _ _ => trivial) low_run
  have hreject := (Prod.mk.inj hvalues).2
  exact ⟨n, hn, hreject,
    ((rejection_has_prior_evidence gatingEnv n 1 4 (by decide)).1 .zero hreject).2⟩

/-- A validator can be rejected while there is no aggregate of the last epoch. -/
theorem rejection_without_last_epoch : ∃ n, Reachable gatingEnv AnyEvent n ∧ gatingEnv.v2 = true ∧
    n.serviceAggregates[(1, 4 - 1)]? = none ∧ ∃ score, v2GatingState gatingEnv n 1 4 = .rejectScore score := by
  obtain ⟨n, hn, hvalues⟩ := Reachable.of_map (P := AnyEvent) 8 _ _ _ _ (fun _ _ _ => trivial) low_run
  obtain ⟨hnone, hreject⟩ := Prod.mk.inj hvalues
  exact ⟨n, hn, rfl, hnone, .zero, hreject⟩

end Entangrid
