import Entangrid.Consensus.Proof.Committee
import Entangrid.Consensus.Proof.Counters
import Entangrid.Node.Service
import Mathlib.Order.Bounds.Basic
import Mathlib.Data.Set.Function

/-!
# Service evidence converges

Attestations of one committee member are merged by dominance: the node keeps the greatest counters it
heard. What it keeps only grows, so an aggregate it has outgrown never has to come back, and the sets
of seen hashes drop nothing that is needed.

* `Evidence`: the held attestations are the greatest heard, and a seen aggregate is held or outgrown.
* `service_evidence_converges`: after the same aggregates in any order, two nodes hold the same
  counters.
-/

namespace Entangrid

variable {E : Env} {n n' : Node} {U T : Set ServiceAttestation}

/-! ## The order of counters -/

/-- Counters in the order of `service_counters_dominate`. -/
instance : PartialOrder ServiceCounters where
  le a b := serviceCountersDominate b a = true
  le_refl a := by simp [serviceCountersDominate]
  le_trans a b c hab hbc := by
    simp only [serviceCountersDominate, Bool.and_eq_true, beq_iff_eq, decide_eq_true_eq] at *
    omega
  le_antisymm a b hab hba := by
    cases a
    cases b
    simp only [serviceCountersDominate, Bool.and_eq_true, beq_iff_eq, decide_eq_true_eq,
      ServiceCounters.mk.injEq] at *
    omega

theorem serviceCountersDominate_iff {a b : ServiceCounters} :
    serviceCountersDominate b a = true ↔ a ≤ b := .rfl

/-! ## What is heard -/

/-- Where an attestation is filed. -/
def ServiceAttestation.key (a : ServiceAttestation) : ValidatorId × Epoch :=
  (a.subjectValidatorId, a.epoch)

def ServiceAggregate.key (g : ServiceAggregate) : ValidatorId × Epoch :=
  (g.subjectValidatorId, g.epoch)

/-- What a signature is over. -/
def ServiceAttestation.unsigned (a : ServiceAttestation) : ServiceAttestation :=
  { a with signature := {} }

/-- The counters a committee member attested. -/
def heard (T : Set ServiceAttestation) (k : ValidatorId × Epoch) (v : ValidatorId) :
    Set ServiceCounters :=
  {c | ∃ a ∈ T, a.key = k ∧ a.committeeMemberId = v ∧ a.counters = c}

/-- Counters of one member for one subject and epoch are comparable. -/
def Comparable (U : Set ServiceAttestation) : Prop :=
  ∀ a ∈ U, ∀ b ∈ U, a.key = b.key → a.committeeMemberId = b.committeeMemberId →
    a.counters ≤ b.counters ∨ b.counters ≤ a.counters

/-- The aggregate of the attestations held under a key. -/
def canonicalAggregate (H : Hashing) (k : ValidatorId × Epoch)
    (byMember : BTreeMap ValidatorId ServiceAttestation) : ServiceAggregate :=
  let attestations := byMember.toList.map (·.2)
  { subjectValidatorId := k.1, epoch := k.2
    attestationRoot := serviceAttestationRoot H attestations
    attestations, aggregateCounters := aggregateServiceCounters attestations }

/-- Attestations of `U` for one subject and epoch, each under its member. -/
def FiledFrom (U : Set ServiceAttestation) (k : ValidatorId × Epoch)
    (byMember : BTreeMap ValidatorId ServiceAttestation) : Prop :=
  ∀ v x, byMember[v]? = some x → x ∈ U ∧ x.key = k ∧ x.committeeMemberId = v

/-- The aggregates that can be put together from attestations of `U`. -/
def assembled (H : Hashing) (U : Set ServiceAttestation) : Set ServiceAggregate :=
  {g | ∃ k byMember, FiledFrom U k byMember ∧ byMember.isEmpty = false ∧
    g = canonicalAggregate H k byMember}

/-- `canonical_hash` tells apart the attestations of `U`, and the aggregates put together from them. -/
structure EvidenceHashes (H : Hashing) (U : Set ServiceAttestation) : Prop where
  attestations : ∀ a ∈ U, ∀ b ∈ U,
    serviceAttestationSigningHash H a = serviceAttestationSigningHash H b → a.unsigned = b.unsigned
  aggregates : Set.InjOn (fun g => H.canonicalHash (.aggregate g)) (assembled H U)

/-! ## What is held -/

namespace Node

def attestation (n : Node) (k : ValidatorId × Epoch) (v : ValidatorId) : Option ServiceAttestation :=
  (n.serviceAttestations.getD k ∅)[v]?

/-- `g` is the aggregate of what is held for its subject and epoch. -/
def Canonical (E : Env) (n : Node) (g : ServiceAggregate) : Prop :=
  ∃ byMember, n.serviceAttestations[g.key]? = some byMember ∧
    g = canonicalAggregate E.hashing g.key byMember

/-- Some member's counters are not covered by `g`. -/
def Outgrown (n : Node) (g : ServiceAggregate) : Prop :=
  ∃ v x, n.attestation g.key v = some x ∧
    ∀ y ∈ g.attestations, y.committeeMemberId = v → ¬x.counters ≤ y.counters

theorem attestation_eq_some {k : ValidatorId × Epoch} {v : ValidatorId} {x : ServiceAttestation} :
    n.attestation k v = some x ↔
      ∃ byMember, n.serviceAttestations[k]? = some byMember ∧ byMember[v]? = some x := by
  rw [attestation, Std.ExtTreeMap.getD_eq_getD_getElem?]
  cases n.serviceAttestations[k]? with
  | none => simp
  | some byMember => simp

end Node

/-- The evidence of a node that heard the attestations `T` of `U`. -/
structure Evidence (E : Env) (U T : Set ServiceAttestation) (n : Node) : Prop where
  filed : ∀ k byMember, n.serviceAttestations[k]? = some byMember → FiledFrom U k byMember
  greatest : ∀ k v x, n.attestation k v = some x → IsGreatest (heard T k v) x.counters
  held : ∀ a ∈ T, (n.attestation a.key a.committeeMemberId).isSome
  seen : ∀ h, h ∈ n.seenServiceAttestations → ∃ a ∈ T, serviceAttestationSigningHash E.hashing a = h
  aggregates : ∀ k g, n.serviceAggregates[k]? = some g →
    g.key = k ∧ g ∈ assembled E.hashing U ∧ (n.Canonical E g ∨ n.Outgrown g)
  seenAggregates : ∀ h, h ∈ n.seenServiceAggregates → ∃ g ∈ assembled E.hashing U,
    E.hashing.canonicalHash (.aggregate g) = h ∧
      (n.serviceAggregates[g.key]? = some g ∨ n.Outgrown g)

/-! ## Attestations -/

section Attestations
variable {a : ServiceAttestation}

theorem Node.addServiceAttestation_getElem? (k : ValidatorId × Epoch) :
    (addServiceAttestation E a n).serviceAttestations[k]? =
      if a.key = k then
        some ((n.serviceAttestations.getD a.key ∅).insert a.committeeMemberId a)
      else n.serviceAttestations[k]? := by
  simp only [addServiceAttestation, Std.ExtTreeMap.getElem?_insert, Std.compare_eq_iff_eq]
  rfl

theorem Node.addServiceAttestation_attestation (k : ValidatorId × Epoch) (v : ValidatorId) :
    (addServiceAttestation E a n).attestation k v =
      if a.key = k ∧ a.committeeMemberId = v then some a else n.attestation k v := by
  simp only [Node.attestation, Std.ExtTreeMap.getD_eq_getD_getElem?,
    Node.addServiceAttestation_getElem?]
  by_cases hk : a.key = k
  · subst hk
    simp only [if_true, true_and, Option.getD_some, Std.ExtTreeMap.getElem?_insert,
      Std.compare_eq_iff_eq]
  · simp [hk]

/-- A taken attestation replaces a lesser one. -/
theorem attestationReplaces_some {x : ServiceAttestation}
    (h : attestationReplaces E (some x) a = true) :
    x.counters ≤ a.counters ∧ ¬a.counters ≤ x.counters := by
  simp only [attestationReplaces, Bool.and_eq_true, Bool.not_eq_true'] at h
  refine ⟨h.2, fun hle => ?_⟩
  rw [serviceCountersDominate_iff.2 hle] at h
  simp at h

/-- What a member attested only grows. -/
theorem Node.Outgrown.mono {g : ServiceAggregate} (h : n.Outgrown g)
    (hmono : ∀ k v x, n.attestation k v = some x →
      ∃ x', n'.attestation k v = some x' ∧ x.counters ≤ x'.counters) : n'.Outgrown g := by
  obtain ⟨v, x, hx, hnot⟩ := h
  obtain ⟨x', hx', hle⟩ := hmono _ v x hx
  exact ⟨v, x', hx', fun y hy hv hle' => hnot y hy hv (hle.trans hle')⟩

theorem heard_insert_of_ne {k : ValidatorId × Epoch} {v : ValidatorId}
    (h : ¬(a.key = k ∧ a.committeeMemberId = v)) : heard (insert a T) k v = heard T k v := by
  ext c
  constructor
  · rintro ⟨b, rfl | hb, hk, hv, hc⟩
    · exact absurd ⟨hk, hv⟩ h
    · exact ⟨b, hb, hk, hv, hc⟩
  · rintro ⟨b, hb, hplace⟩
    exact ⟨b, .inr hb, hplace⟩

theorem heard_insert_self :
    heard (insert a T) a.key a.committeeMemberId =
      insert a.counters (heard T a.key a.committeeMemberId) := by
  ext c
  constructor
  · rintro ⟨b, rfl | hb, hk, hv, hc⟩
    · exact .inl hc.symm
    · exact .inr ⟨b, hb, hk, hv, hc⟩
  · rintro (rfl | ⟨b, hb, hplace⟩)
    · exact ⟨a, .inl rfl, rfl, rfl, rfl⟩
    · exact ⟨b, .inr hb, hplace⟩

namespace Evidence

theorem place (h : Evidence E U T n) {k : ValidatorId × Epoch} {v : ValidatorId}
    {x : ServiceAttestation} (hx : n.attestation k v = some x) :
    x ∈ U ∧ x.key = k ∧ x.committeeMemberId = v := by
  obtain ⟨byMember, hk, hv⟩ := Node.attestation_eq_some.1 hx
  exact h.filed k byMember hk v x hv

/-- A greater attestation is taken: the aggregate of its subject is outgrown. -/
theorem take (h : Evidence E U T n) (ha : a ∈ U)
    (hreplaces : attestationReplaces E (n.attestation a.key a.committeeMemberId) a = true) :
    Evidence E U (insert a T) (addServiceAttestation E a n) := by
  have hgrows (x : ServiceAttestation)
      (hx : n.attestation a.key a.committeeMemberId = some x) :
      x.counters ≤ a.counters ∧ ¬a.counters ≤ x.counters :=
    attestationReplaces_some (by rwa [hx] at hreplaces)
  have hmono (k : ValidatorId × Epoch) (v : ValidatorId) (x : ServiceAttestation)
      (hx : n.attestation k v = some x) :
      ∃ x', (addServiceAttestation E a n).attestation k v = some x' ∧
        x.counters ≤ x'.counters := by
    rw [Node.addServiceAttestation_attestation]
    by_cases hplace : a.key = k ∧ a.committeeMemberId = v
    · obtain ⟨rfl, rfl⟩ := hplace
      exact ⟨a, by simp, (hgrows x hx).1⟩
    · exact ⟨x, by rw [if_neg hplace, hx], le_refl _⟩
  refine ⟨fun k byMember hk => ?_, fun k v x hx => ?_, fun b hb => ?_, fun id hid => ?_,
    fun k g hg => ?_, fun id hid => ?_⟩
  · rw [Node.addServiceAttestation_getElem?] at hk
    split_ifs at hk with heq
    · obtain rfl := heq
      obtain rfl := Option.some.inj hk
      intro v x hx
      rw [Std.ExtTreeMap.getElem?_insert] at hx
      split_ifs at hx with hv
      · obtain rfl := Option.some.inj hx
        exact ⟨ha, rfl, Std.compare_eq_iff_eq.1 hv⟩
      · exact h.place hx
    · exact h.filed k byMember hk
  · rw [Node.addServiceAttestation_attestation] at hx
    split_ifs at hx with hplace
    · obtain ⟨rfl, rfl⟩ := hplace
      obtain rfl := Option.some.inj hx
      rw [heard_insert_self]
      refine ⟨.inl rfl, ?_⟩
      rintro c (rfl | hc)
      · exact le_refl _
      · obtain ⟨b, hb, hkey, hmember, -⟩ := id hc
        obtain ⟨x, hx⟩ := Option.isSome_iff_exists.1 (h.held b hb)
        rw [hkey, hmember] at hx
        exact ((h.greatest _ _ x hx).2 hc).trans (hgrows x hx).1
    · rw [heard_insert_of_ne hplace]
      exact h.greatest k v x hx
  · rw [Node.addServiceAttestation_attestation]
    split_ifs with hplace
    · rfl
    · exact h.held b (hb.resolve_left fun heq => hplace (heq ▸ ⟨rfl, rfl⟩))
  · rcases Std.ExtTreeSet.mem_insert.1 hid with heq | hold
    · exact ⟨a, .inl rfl, Std.compare_eq_iff_eq.1 heq⟩
    · obtain ⟨b, hb, hbid⟩ := h.seen id hold
      exact ⟨b, .inr hb, hbid⟩
  · obtain ⟨hkey, hmem, hcase⟩ := h.aggregates k g hg
    refine ⟨hkey, hmem, ?_⟩
    rcases hcase with ⟨byMember, hheld, hcanonical⟩ | hpast
    · by_cases heq : a.key = g.key
      · -- the member's old counters are in the aggregate, its new ones are not covered
        refine .inr ⟨a.committeeMemberId, a, ?_, fun y hy hmember => ?_⟩
        · rw [Node.addServiceAttestation_attestation, if_pos ⟨heq, rfl⟩]
        · rw [hcanonical] at hy
          obtain ⟨v, hv⟩ := Std.ExtTreeMap.mem_values.1 hy
          have hmember' := (h.filed _ _ hheld v y hv).2.2
          rw [← hmember'.symm.trans hmember] at hgrows
          exact (hgrows y (Node.attestation_eq_some.2 ⟨byMember, heq ▸ hheld, hv⟩)).2
      · refine .inl ⟨byMember, ?_, hcanonical⟩
        rw [Node.addServiceAttestation_getElem?, if_neg heq, hheld]
    · exact .inr (hpast.mono hmono)
  · obtain ⟨g, hmem, hgid, hcase⟩ := h.seenAggregates id hid
    exact ⟨g, hmem, hgid, hcase.imp_right (·.mono hmono)⟩

/-- An attestation that is not taken is covered by the one that is held. -/
theorem skip (h : Evidence E U T n) {x : ServiceAttestation}
    (hx : n.attestation a.key a.committeeMemberId = some x) (hle : a.counters ≤ x.counters) :
    Evidence E U (insert a T) n := by
  refine ⟨h.filed, fun k v y hy => ?_, fun b hb => ?_, fun id hid => ?_, h.aggregates,
    h.seenAggregates⟩
  · by_cases hplace : a.key = k ∧ a.committeeMemberId = v
    · obtain ⟨rfl, rfl⟩ := hplace
      obtain rfl := Option.some.inj (hx.symm.trans hy)
      obtain ⟨hmem, hupper⟩ := h.greatest _ _ x hx
      rw [heard_insert_self]
      exact ⟨.inr hmem, by rintro c (rfl | hc); exacts [hle, hupper hc]⟩
    · rw [heard_insert_of_ne hplace]
      exact h.greatest k v y hy
  · rcases hb with rfl | hb
    · rw [hx]
      rfl
    · exact h.held b hb
  · obtain ⟨b, hb, hbid⟩ := h.seen id hid
    exact ⟨b, .inr hb, hbid⟩

/-- An attestation that was seen or does not replace the held one is covered by it. -/
theorem covered (h : Evidence E U T n) (hU : Comparable U) (hH : EvidenceHashes E.hashing U)
    (hT : T ⊆ U) (ha : a ∈ U)
    (hnot : serviceAttestationSigningHash E.hashing a ∈ n.seenServiceAttestations ∨
      attestationReplaces E (n.attestation a.key a.committeeMemberId) a = false) :
    ∃ x, n.attestation a.key a.committeeMemberId = some x ∧ a.counters ≤ x.counters := by
  have hsame {b : ServiceAttestation} (hb : b ∈ U)
      (heq : serviceAttestationSigningHash E.hashing b =
        serviceAttestationSigningHash E.hashing a) :
      b.key = a.key ∧ b.committeeMemberId = a.committeeMemberId ∧ b.counters = a.counters := by
    have hunsigned := hH.attestations b hb a ha heq
    simp only [ServiceAttestation.unsigned, ServiceAttestation.mk.injEq] at hunsigned
    obtain ⟨hsubject, hmember, hepoch, hcounters, -⟩ := hunsigned
    exact ⟨Prod.ext hsubject hepoch, hmember, hcounters⟩
  rcases hnot with hseen | hreplaces
  · obtain ⟨b, hb, hbid⟩ := h.seen _ hseen
    obtain ⟨hkey, hmember, hcounters⟩ := hsame (hT hb) hbid
    obtain ⟨x, hx⟩ := Option.isSome_iff_exists.1 (h.held b hb)
    refine ⟨x, by rw [← hkey, ← hmember, hx], ?_⟩
    exact (h.greatest _ _ x hx).2 ⟨b, hb, rfl, rfl, hcounters⟩
  · cases hx : n.attestation a.key a.committeeMemberId with
    | none =>
      rw [hx] at hreplaces
      cases hreplaces
    | some x =>
      refine ⟨x, rfl, ?_⟩
      obtain ⟨hxU, hkey, hmember⟩ := h.place hx
      rw [hx] at hreplaces
      by_contra hle
      have hge : x.counters ≤ a.counters :=
        (hU a ha x hxU hkey.symm hmember.symm).resolve_left hle
      have hne : serviceAttestationSigningHash E.hashing x ≠
          serviceAttestationSigningHash E.hashing a := fun heq =>
        hle (hsame hxU heq).2.2.ge
      have hdominates : serviceCountersDominate x.counters a.counters = false :=
        Bool.eq_false_iff.2 hle
      simp [attestationReplaces, hne, hdominates, serviceCountersDominate_iff.2 hge] at hreplaces

/-- An attestation is heard; what is filed under other keys stays. -/
theorem insertServiceAttestation_run (h : Evidence E U T n) (hU : Comparable U)
    (hH : EvidenceHashes E.hashing U) (hT : T ⊆ U) (ha : a ∈ U) :
    ∃ changed n', (insertServiceAttestation E a true).run n = .ok changed n' ∧
      Evidence E U (insert a T) n' ∧ n'.serviceAggregates = n.serviceAggregates ∧
      ∀ k ≠ a.key, n'.serviceAttestations[k]? = n.serviceAttestations[k]? := by
  unfold insertServiceAttestation
  rw [Proc.run_get_bind]
  by_cases hseen : n.seenServiceAttestations.contains
      (serviceAttestationSigningHash E.hashing a) = true
  · obtain ⟨x, hx, hle⟩ := h.covered hU hH hT ha (.inl (Std.ExtTreeSet.contains_iff_mem.1 hseen))
    rw [if_pos hseen]
    exact ⟨false, n, rfl, h.skip hx hle, rfl, fun _ _ => rfl⟩
  · rw [if_neg hseen]
    cases hreplaces : attestationReplaces E (n.attestation a.key a.committeeMemberId) a with
    | true =>
      refine ⟨true, (addServiceAttestation E a n).withEffect
        (.write (.appendServiceAttestation a)), ?_, ?_, rfl, fun k hk => ?_⟩
      · exact congrArg (fun m => Proc.run m n) (if_pos hreplaces)
      · obtain ⟨filed, greatest, held, seen, aggregates, seenAggregates⟩ := h.take ha hreplaces
        exact ⟨filed, greatest, held, seen, aggregates, seenAggregates⟩
      · exact (Node.addServiceAttestation_getElem? (E := E) k).trans (if_neg (Ne.symm hk))
    | false =>
      obtain ⟨x, hx, hle⟩ := h.covered hU hH hT ha (.inr hreplaces)
      refine ⟨false, n, ?_, h.skip hx hle, rfl, fun _ _ => rfl⟩
      exact congrArg (fun m => Proc.run m n) (if_neg (Bool.eq_false_iff.1 hreplaces))

/-- The attestations of a list are heard. -/
theorem insertServiceAttestations_run (h : Evidence E U T n) (hU : Comparable U)
    (hH : EvidenceHashes E.hashing U) (hT : T ⊆ U) {attestations : List ServiceAttestation}
    {k : ValidatorId × Epoch} (ha : ∀ a ∈ attestations, a ∈ U ∧ a.key = k) :
    ∃ changed n', (insertServiceAttestations E true attestations).run n = .ok changed n' ∧
      Evidence E U (T ∪ {a | a ∈ attestations}) n' ∧
      n'.serviceAggregates = n.serviceAggregates ∧
      ∀ k' ≠ k, n'.serviceAttestations[k']? = n.serviceAttestations[k']? := by
  induction attestations generalizing n T with
  | nil =>
    refine ⟨false, n, rfl, ?_, rfl, fun _ _ => rfl⟩
    simpa using h
  | cons a rest ih =>
    obtain ⟨haU, hkey⟩ := ha a List.mem_cons_self
    obtain ⟨changed, m, hrun, hm, haggregates, hothers⟩ :=
      h.insertServiceAttestation_run hU hH hT haU
    obtain ⟨changed', n', hrun', hn', haggregates', hothers'⟩ :=
      ih hm (Set.insert_subset haU hT) fun b hb => ha b (List.mem_cons_of_mem a hb)
    refine ⟨changed || changed', n', ?_, ?_, haggregates'.trans haggregates, fun k' hk' => ?_⟩
    · rw [insertServiceAttestations, Proc.run_bind_of_ok hrun, Proc.run_bind_of_ok hrun']
      rfl
    · have hunion : insert a T ∪ {b | b ∈ rest} = T ∪ {b | b ∈ a :: rest} := by
        ext b
        simp only [Set.mem_union, Set.mem_insert_iff, Set.mem_ofPred_eq, List.mem_cons]
        tauto
      exact hunion ▸ hn'
    · exact (hothers' k' hk').trans (hothers k' (hkey ▸ hk'))

end Evidence

end Attestations

/-! ## Aggregates -/

section Aggregates

open ConsensusEngine

/-- An accepted aggregate: its attestations are valid, about its subject, of different members and
enough. -/
theorem validateServiceAggregate_ok {g : ServiceAggregate} {u : Unit}
    (h : validateServiceAggregate E g = .ok u) :
    g.attestations ≠ [] ∧ (∀ a ∈ g.attestations, a.key = g.key) ∧
      (g.attestations.map (·.committeeMemberId)).Nodup ∧
      serviceCommitteeThreshold (E.consensus.serviceCommitteeFor g.epoch g.subjectValidatorId).length ≤
        g.attestations.length ∧
      ∀ a ∈ g.attestations, a.committeeMemberId ∈
        E.consensus.serviceCommitteeFor a.epoch a.subjectValidatorId := by
  simp only [Entangrid.validateServiceAggregate, except_bind_ok, forM_ok] at h
  obtain ⟨_, haccepted, hvalid⟩ := h
  obtain ⟨hne, habout, hnodup, -, henough⟩ := accepted_attestations haccepted
  refine ⟨hne, fun a ha => Prod.ext (habout a ha).1 (habout a ha).2, hnodup, ?_, fun a ha => ?_⟩
  · rwa [ServiceAggregate.members, List.length_map] at henough
  · have ha' := hvalid a ha
    simp only [validateServiceAttestation, except_bind_ok, rejectIf_ok] at ha'
    obtain ⟨-, hin, -⟩ := ha'
    simpa using hin

variable {g : ServiceAggregate}

theorem Node.Canonical.eq {g' : ServiceAggregate} (h : n.Canonical E g) (hkey : g.key = g'.key)
    (h' : n.Canonical E g') : g = g' := by
  obtain ⟨byMember, hheld, hg⟩ := h
  obtain ⟨byMember', hheld', hg'⟩ := h'
  rw [hkey, hheld'] at hheld
  obtain rfl := Option.some.inj hheld
  rw [hg, hg', hkey]

namespace Evidence

theorem not_outgrown (h : Evidence E U T n) (hg : n.Canonical E g) : ¬n.Outgrown g := by
  obtain ⟨byMember, hheld, hg⟩ := hg
  rintro ⟨v, x, hx, hnot⟩
  obtain ⟨byMember', hheld', hv⟩ := Node.attestation_eq_some.1 hx
  obtain rfl := Option.some.inj (hheld.symm.trans hheld')
  have hmem : x ∈ g.attestations := by
    rw [hg]
    exact Std.ExtTreeMap.mem_values.2 ⟨v, hv⟩
  exact hnot x hmem (h.place hx).2.2 (le_refl _)

/-- The aggregate of what is held passes the check once some accepted aggregate was heard. -/
theorem buildServiceAggregate_eq_some (h : Evidence E U T n) (hv2 : E.v2 = true)
    (hcommittee : ∀ a ∈ U, a.committeeMemberId ∈
      E.consensus.serviceCommitteeFor a.epoch a.subjectValidatorId)
    (hg : validateServiceAggregate E g = .ok ()) (hheard : ∀ a ∈ g.attestations, a ∈ T) :
    ∃ c, buildServiceAggregate E n g.subjectValidatorId g.epoch = some c ∧ c.key = g.key ∧
      n.Canonical E c ∧ c ∈ assembled E.hashing U := by
  obtain ⟨hne, hkeys, hnodup, henough, -⟩ := validateServiceAggregate_ok hg
  have hheld (a : ServiceAttestation) (ha : a ∈ g.attestations) :
      ∃ x, n.attestation g.key a.committeeMemberId = some x :=
    Option.isSome_iff_exists.1 (hkeys a ha ▸ h.held a (hheard a ha))
  obtain ⟨a, ha⟩ := List.exists_mem_of_ne_nil _ hne
  obtain ⟨x, hx⟩ := hheld a ha
  obtain ⟨byMember, hbyMember, hxv⟩ := Node.attestation_eq_some.1 hx
  have hfiled := h.filed _ _ hbyMember
  have hmembers : (byMember.toList.map (·.2)).map (·.committeeMemberId) = byMember.keys :=
    Std.ExtTreeMap.values_map_eq_keys fun v y hy => (hfiled v y hy).2.2
  have hnonempty : (byMember.toList.map (·.2)).isEmpty = false :=
    List.isEmpty_eq_false_iff_exists_mem.2 ⟨x, Std.ExtTreeMap.mem_values.2 ⟨_, hxv⟩⟩
  have hsize : g.attestations.length ≤ (byMember.toList.map (·.2)).length := by
    have hsubset : g.attestations.map (·.committeeMemberId) ⊆
        (byMember.toList.map (·.2)).map (·.committeeMemberId) := by
      rintro v hv
      obtain ⟨b, hb, rfl⟩ := List.mem_map.1 hv
      obtain ⟨y, hy⟩ := hheld b hb
      obtain ⟨byMember', hbyMember', hyv⟩ := Node.attestation_eq_some.1 hy
      obtain rfl := Option.some.inj (hbyMember.symm.trans hbyMember')
      exact List.mem_map.2 ⟨y, Std.ExtTreeMap.mem_values.2 ⟨_, hyv⟩, (hfiled _ y hyv).2.2⟩
    simpa using (List.subperm_of_subset hnodup hsubset).length_le
  have hvalid : aggregateIsValid E (canonicalAggregate E.hashing g.key byMember) = true := by
    obtain ⟨members, hattested, hlength⟩ : ∃ members, attestedMembers
        (E.consensus.serviceCommitteeFor g.epoch g.subjectValidatorId)
        (byMember.toList.map (·.2)) [] = .ok members ∧
        members.length = 0 + (byMember.toList.map (·.2)).length := by
      refine attestedMembers_of_nodup (fun b hb => ?_) (hmembers ▸ Std.ExtTreeMap.nodup_keys)
        (by simp)
      obtain ⟨v, hv⟩ := Std.ExtTreeMap.mem_values.1 hb
      obtain ⟨hbU, hkey, -⟩ := hfiled v b hv
      obtain ⟨hsubject, hepoch⟩ := Prod.mk.inj hkey
      exact hsubject ▸ hepoch ▸ hcommittee b hbU
    have hwf : (canonicalAggregate E.hashing g.key byMember).isWellFormed E.hashing = true := by
      simp only [ServiceAggregate.isWellFormed, canonicalAggregate, hnonempty, Bool.not_false,
        beq_self_eq_true, Bool.true_and, List.all_eq_true, Bool.and_eq_true, beq_iff_eq]
      intro b hb
      obtain ⟨v, hv⟩ := Std.ExtTreeMap.mem_values.1 hb
      exact Prod.mk.inj (hfiled v b hv).2.1
    have hok : E.consensus.validateServiceAggregate
        (canonicalAggregate E.hashing g.key byMember) = .ok () := by
      simp only [ConsensusEngine.validateServiceAggregate, except_bind_ok, rejectIf_ok]
      refine ⟨(), ?_, members, hattested, ?_⟩
      · exact congrArg (!·) hwf
      · have hle : serviceCommitteeThreshold
            (E.consensus.serviceCommitteeFor g.epoch g.subjectValidatorId).length ≤
              members.length := by omega
        exact decide_eq_false (Nat.not_lt.2 hle)
    rw [aggregateIsValid, hok]
    rfl
  refine ⟨canonicalAggregate E.hashing g.key byMember, ?_, rfl, ⟨byMember, hbyMember, rfl⟩,
    g.key, byMember, hfiled, by simpa using hnonempty, rfl⟩
  unfold buildServiceAggregate
  rw [hv2]
  refine (Option.bind_eq_some_iff.2 ⟨byMember, hbyMember, ?_⟩ : _)
  exact if_pos hvalid

/-- The aggregate of what is held is stored, or is stored already. -/
theorem insertServiceAggregate_run (h : Evidence E U T n) (hH : EvidenceHashes E.hashing U)
    (hg : n.Canonical E g) (hmem : g ∈ assembled E.hashing U) :
    ∃ changed n', (insertServiceAggregate E g true).run n = .ok changed n' ∧ Evidence E U T n' ∧
      n'.serviceAggregates[g.key]? = some g ∧ n'.serviceAttestations = n.serviceAttestations ∧
      ∀ k ≠ g.key, n'.serviceAggregates[k]? = n.serviceAggregates[k]? := by
  unfold insertServiceAggregate
  rw [Proc.run_get_bind]
  by_cases hseen : (n.seenServiceAggregates.contains (E.hashing.canonicalHash (.aggregate g)) ||
      ((n.serviceAggregates[g.key]?).map fun a => E.hashing.canonicalHash (.aggregate a) ==
        E.hashing.canonicalHash (.aggregate g)).getD false) = true
  · refine ⟨false, n, congrArg (fun m => Proc.run m n) (if_pos hseen), h, ?_, rfl, fun _ _ => rfl⟩
    rcases Bool.or_eq_true_iff.1 hseen with hseen | hheld
    · obtain ⟨g', hmem', hid, hcase⟩ := h.seenAggregates _ (Std.ExtTreeSet.contains_iff_mem.1 hseen)
      obtain rfl := hH.aggregates hmem' hmem hid
      exact hcase.resolve_right (h.not_outgrown hg)
    · cases hstored : n.serviceAggregates[g.key]? with
      | none => simp [hstored] at hheld
      | some g' =>
        have hid : E.hashing.canonicalHash (.aggregate g') =
            E.hashing.canonicalHash (.aggregate g) := by
          simpa [hstored] using hheld
        rw [hH.aggregates (h.aggregates _ g' hstored).2.1 hmem hid]
  · have hadded (k : ValidatorId × Epoch) : (addServiceAggregate E g n).serviceAggregates[k]? =
        if g.key = k then some g else n.serviceAggregates[k]? := by
      simp only [addServiceAggregate, Std.ExtTreeMap.getElem?_insert, Std.compare_eq_iff_eq]
      rfl
    refine ⟨true, (addServiceAggregate E g n).withEffect (.write (.appendServiceAggregate g)),
      congrArg (fun m => Proc.run m n) (if_neg hseen),
      ⟨h.filed, h.greatest, h.held, h.seen, fun k g' hg' => ?_, fun id hid => ?_⟩, ?_, rfl,
      fun k hk => ?_⟩
    · have hg' := (hadded k).symm.trans hg'
      split_ifs at hg' with hkey
      · obtain rfl := Option.some.inj hg'
        exact ⟨hkey, hmem, .inl hg⟩
      · exact h.aggregates k g' hg'
    · rcases Std.ExtTreeSet.mem_insert.1 hid with heq | hold
      · exact ⟨g, hmem, Std.compare_eq_iff_eq.1 heq, .inl ((hadded g.key).trans (if_pos rfl))⟩
      · obtain ⟨g', hmem', hgid, hcase⟩ := h.seenAggregates id hold
        refine ⟨g', hmem', hgid, ?_⟩
        rcases hcase with hstored | hpast
        · by_cases hkey : g.key = g'.key
          · -- the aggregate it takes the place of is outgrown
            rcases (h.aggregates _ g' hstored).2.2 with hcanonical | hpast
            · obtain rfl : g' = g := hcanonical.eq hkey.symm hg
              exact .inl ((hadded g'.key).trans (if_pos rfl))
            · exact .inr hpast
          · exact .inl (((hadded g'.key).trans (if_neg hkey)).trans hstored)
        · exact .inr hpast
    · exact (hadded g.key).trans (if_pos rfl)
    · exact (hadded k).trans (if_neg (Ne.symm hk))

end Evidence

/-- For every subject and epoch with attestations, their aggregate is stored. -/
def Node.Settled (E : Env) (n : Node) : Prop :=
  ∀ k v x, n.attestation k v = some x →
    ∃ g, n.serviceAggregates[k]? = some g ∧ g.key = k ∧ n.Canonical E g

/-- An imported aggregate is heard, and the aggregate of what is then held is stored. -/
theorem Evidence.importServiceAggregate_run (h : Evidence E U T n) (hs : n.Settled E)
    (hU : Comparable U) (hH : EvidenceHashes E.hashing U) (hT : T ⊆ U) (hv2 : E.v2 = true)
    (hcommittee : ∀ a ∈ U, a.committeeMemberId ∈
      E.consensus.serviceCommitteeFor a.epoch a.subjectValidatorId)
    (hg : validateServiceAggregate E g = .ok ()) (hmem : ∀ a ∈ g.attestations, a ∈ U) :
    ∃ changed n', (importServiceAggregate E g).run n = .ok changed n' ∧
      Evidence E U (T ∪ {a | a ∈ g.attestations}) n' ∧ n'.Settled E := by
  have hkeys := (validateServiceAggregate_ok hg).2.1
  obtain ⟨changed, m, hrun, hm, haggregates, hothers⟩ :=
    h.insertServiceAttestations_run hU hH hT fun a ha => ⟨hmem a ha, hkeys a ha⟩
  obtain ⟨c, hbuild, hkey, hcanonical, hc⟩ :=
    hm.buildServiceAggregate_eq_some hv2 hcommittee hg fun a ha => .inr ha
  obtain ⟨changed', n', hrun', hn', hstored, hkept, hrest⟩ :=
    hm.insertServiceAggregate_run hH hcanonical hc
  refine ⟨changed || changed', n', ?_, hn', fun k v x hx => ?_⟩
  · unfold importServiceAggregate mergeServiceAggregate
    rw [hv2]
    refine (Proc.run_ofExcept_bind_of_ok hg).trans ?_
    rw [Proc.run_bind_of_ok hrun, Proc.run_get_bind, hbuild]
    exact Proc.run_bind_of_ok hrun'
  · have hcanonical' {g : ServiceAggregate} (hg : m.Canonical E g) : n'.Canonical E g := by
      obtain ⟨byMember, hheld, hg⟩ := hg
      exact ⟨byMember, by rw [hkept, hheld], hg⟩
    by_cases hk : k = g.key
    · obtain rfl := hk
      exact ⟨c, by rw [← hkey, hstored], hkey, hcanonical' hcanonical⟩
    · have hx' : n.attestation k v = some x := by
        obtain ⟨byMember, hheld, hv⟩ := Node.attestation_eq_some.1 hx
        rw [hkept, hothers k hk] at hheld
        exact Node.attestation_eq_some.2 ⟨byMember, hheld, hv⟩
      obtain ⟨g', hstored', hkey', byMember, hheld, hg'⟩ := hs k v x hx'
      refine ⟨g', ?_, hkey', hcanonical' ⟨byMember, ?_, hg'⟩⟩
      · rw [hrest k (hkey ▸ hk), haggregates, hstored']
      · rw [hkey', hothers k hk, ← hkey', hheld]

end Aggregates

/-! ## Imports in any order -/

/-- The imports of a list of aggregates, one after the other. -/
def importServiceAggregates (E : Env) (aggregates : List ServiceAggregate) : NodeM Unit :=
  Proc.forEach aggregates fun aggregate => do
    let _ ← importServiceAggregate E aggregate
    pure ()

/-- The attestations in the aggregates of `S`. -/
def attestationsOf (S : Set ServiceAggregate) : Set ServiceAttestation :=
  {a | ∃ g ∈ S, a ∈ g.attestations}

theorem Evidence.importServiceAggregates_run {S : Set ServiceAggregate}
    {aggregates : List ServiceAggregate} (h : Evidence E (attestationsOf S) T n)
    (hs : n.Settled E) (hU : Comparable (attestationsOf S))
    (hH : EvidenceHashes E.hashing (attestationsOf S)) (hT : T ⊆ attestationsOf S)
    (hv2 : E.v2 = true) (hvalid : ∀ g ∈ S, validateServiceAggregate E g = .ok ())
    (hS : ∀ g ∈ aggregates, g ∈ S) :
    ∃ n', (importServiceAggregates E aggregates).run n = .ok ⟨⟩ n' ∧
      Evidence E (attestationsOf S) (T ∪ attestationsOf {g | g ∈ aggregates}) n' ∧
      n'.Settled E := by
  induction aggregates generalizing n T with
  | nil =>
    refine ⟨n, rfl, ?_, hs⟩
    simpa [attestationsOf] using h
  | cons g rest ih =>
    have hcommittee : ∀ a ∈ attestationsOf S, a.committeeMemberId ∈
        E.consensus.serviceCommitteeFor a.epoch a.subjectValidatorId := by
      rintro a ⟨g', hg', ha⟩
      exact (validateServiceAggregate_ok (hvalid g' hg')).2.2.2.2 a ha
    have hg := hS g List.mem_cons_self
    have hmem : ∀ a ∈ g.attestations, a ∈ attestationsOf S := fun a ha => ⟨g, hg, ha⟩
    obtain ⟨changed, m, hrun, hm, hms⟩ :=
      h.importServiceAggregate_run hs hU hH hT hv2 hcommittee (hvalid g hg) hmem
    obtain ⟨n', hrun', hn', hns⟩ := ih hm hms (Set.union_subset hT hmem)
      fun g' hg' => hS g' (List.mem_cons_of_mem g hg')
    refine ⟨n', ?_, ?_, hns⟩
    · have hfirst : (do let _ ← importServiceAggregate E g; pure ()).run n = Out.ok () m :=
        Proc.run_bind_of_ok hrun
      exact (Proc.run_bind_of_ok hfirst).trans hrun'
    · have hunion : T ∪ {a | a ∈ g.attestations} ∪ attestationsOf {g' | g' ∈ rest} =
          T ∪ attestationsOf {g' | g' ∈ g :: rest} := by
        ext a
        simp only [attestationsOf, Set.mem_union, Set.mem_ofPred_eq, List.mem_cons,
          exists_eq_or_imp]
        tauto
      exact hunion ▸ hn'

/-- A node that holds no service evidence. -/
structure Node.WithoutEvidence (n : Node) : Prop where
  attestations : n.serviceAttestations = ∅
  aggregates : n.serviceAggregates = ∅
  seenAttestations : n.seenServiceAttestations = ∅
  seenAggregates : n.seenServiceAggregates = ∅

theorem Node.WithoutEvidence.attestation (hn : n.WithoutEvidence) (k : ValidatorId × Epoch)
    (v : ValidatorId) : n.attestation k v = none := by
  simp [Node.attestation, hn.attestations]

theorem Node.WithoutEvidence.evidence (hn : n.WithoutEvidence) : Evidence E U ∅ n where
  filed := by simp [hn.attestations]
  greatest := by simp [hn.attestation]
  held := by simp
  seen := by simp [hn.seenAttestations]
  aggregates := by simp [hn.aggregates]
  seenAggregates := by simp [hn.seenAggregates]

/-! ## Convergence -/

section Convergence
variable {E' : Env} {U' : Set ServiceAttestation}

namespace Evidence

/-- The greatest counters heard do not depend on the node. -/
theorem counters_eq (h : Evidence E U T n) (h' : Evidence E' U' T n') (k : ValidatorId × Epoch)
    (v : ValidatorId) :
    (n.attestation k v).map (·.counters) = (n'.attestation k v).map (·.counters) := by
  cases hx : n.attestation k v with
  | none =>
    cases hx' : n'.attestation k v with
    | none => rfl
    | some x' =>
      obtain ⟨a, ha, rfl, rfl, -⟩ := (h'.greatest k v x' hx').1
      have hsome := h.held a ha
      rw [hx] at hsome
      cases hsome
  | some x =>
    have hgreatest := h.greatest k v x hx
    obtain ⟨a, ha, rfl, rfl, -⟩ := id hgreatest.1
    obtain ⟨x', hx'⟩ := Option.isSome_iff_exists.1 (h'.held a ha)
    rw [hx']
    exact congrArg some (hgreatest.unique (h'.greatest _ _ x' hx'))

/-- An aggregate is stored exactly under the keys with attestations. -/
theorem aggregate_isSome (h : Evidence E U T n) (hs : n.Settled E) (k : ValidatorId × Epoch) :
    (n.serviceAggregates[k]?).isSome ↔ ∃ v, (n.attestation k v).isSome := by
  constructor
  · intro hsome
    obtain ⟨g, hg⟩ := Option.isSome_iff_exists.1 hsome
    obtain ⟨rfl, hmem, hcase⟩ := h.aggregates k g hg
    rcases hcase with ⟨byMember, hheld, hcanonical⟩ | ⟨v, x, hx, -⟩
    · obtain ⟨k, byMember₀, -, hne, hg⟩ := hmem
      rw [← Std.ExtTreeMap.isEmpty_toList] at hne
      have hattestations : byMember₀.toList.map (·.2) = byMember.toList.map (·.2) :=
        congrArg (·.attestations) (hg.symm.trans hcanonical)
      obtain ⟨x, hx⟩ := List.isEmpty_eq_false_iff_exists_mem.1
        (show (byMember.toList.map (·.2)).isEmpty = false by simpa [← hattestations] using hne)
      obtain ⟨v, hv⟩ := Std.ExtTreeMap.mem_values.1 hx
      exact ⟨v, by rw [Node.attestation_eq_some.2 ⟨byMember, hheld, hv⟩]; rfl⟩
    · exact ⟨v, by rw [hx]; rfl⟩
  · rintro ⟨v, hsome⟩
    obtain ⟨x, hx⟩ := Option.isSome_iff_exists.1 hsome
    obtain ⟨g, hg, -⟩ := hs k v x hx
    rw [hg]
    rfl

end Evidence

theorem Node.Canonical.aggregateCounters_eq {g g' : ServiceAggregate} (h : n.Canonical E g)
    (h' : n'.Canonical E' g') (hkey : g.key = g'.key)
    (hcounters : ∀ v, (n.attestation g.key v).map (·.counters) =
      (n'.attestation g.key v).map (·.counters)) :
    g.aggregateCounters = g'.aggregateCounters := by
  obtain ⟨byMember, hheld, hg⟩ := h
  obtain ⟨byMember', hheld', hg'⟩ := h'
  have hentries (v : ValidatorId) : byMember[v]?.map (·.counters) = byMember'[v]?.map (·.counters) := by
    have hv := hcounters v
    rw [← hkey] at hheld'
    simpa [Node.attestation, Std.ExtTreeMap.getD_eq_getD_getElem?, hheld, hheld'] using hv
  rw [hg, hg']
  have hsum := congrArg (List.foldl ServiceCounters.wrappingAdd {})
    (Std.ExtTreeMap.values_map_congr hentries)
  rwa [← aggregateServiceCounters_eq, ← aggregateServiceCounters_eq] at hsum

theorem Evidence.aggregateCounters_eq (h : Evidence E U T n) (hs : n.Settled E)
    (h' : Evidence E' U' T n') (hs' : n'.Settled E') (k : ValidatorId × Epoch) :
    (n.serviceAggregates[k]?).map (·.aggregateCounters) =
      (n'.serviceAggregates[k]?).map (·.aggregateCounters) := by
  have hcounters := h.counters_eq h' k
  have hsome : (n.serviceAggregates[k]?).isSome ↔ (n'.serviceAggregates[k]?).isSome := by
    rw [h.aggregate_isSome hs, h'.aggregate_isSome hs']
    refine exists_congr fun v => ?_
    rw [← Option.isSome_map (f := (·.counters)), hcounters v, Option.isSome_map]
  cases hg : n.serviceAggregates[k]? with
  | none =>
    cases hg' : n'.serviceAggregates[k]? with
    | none => rfl
    | some g' => simp [hg, hg'] at hsome
  | some g =>
    obtain ⟨g', hg'⟩ := Option.isSome_iff_exists.1 (hsome.1 (by rw [hg]; rfl))
    obtain ⟨v, hv⟩ := (h.aggregate_isSome hs k).1 (by rw [hg]; rfl)
    obtain ⟨x, hx⟩ := Option.isSome_iff_exists.1 hv
    obtain ⟨x', hx'⟩ := Option.isSome_iff_exists.1
      (show (n'.attestation k v).isSome by
        rw [← Option.isSome_map (f := (·.counters)), ← hcounters v, Option.isSome_map, hv])
    obtain ⟨c, hc, rfl, hcanonical⟩ := hs k v x hx
    obtain ⟨c', hc', hkey', hcanonical'⟩ := hs' _ v x' hx'
    obtain rfl := Option.some.inj (hg.symm.trans hc)
    rw [hc']
    exact congrArg some (hcanonical.aggregateCounters_eq hcanonical' hkey'.symm hcounters)

end Convergence

/-- **Service evidence converges.** Two nodes without evidence import the same accepted aggregates, in
any order and any number of times. If each member's counters are comparable, both imports succeed and
leave the same counters for every subject, epoch and member, and the same aggregated counters. -/
theorem service_evidence_converges (E E' : Env) (S : Set ServiceAggregate) (n n' : Node)
    (xs ys : List ServiceAggregate) (hhashing : E'.hashing = E.hashing) (hv2 : E.v2 = true)
    (hv2' : E'.v2 = true) (hvalid : ∀ g ∈ S, validateServiceAggregate E g = .ok ())
    (hvalid' : ∀ g ∈ S, validateServiceAggregate E' g = .ok ())
    (hcomparable : Comparable (attestationsOf S))
    (hhashes : EvidenceHashes E.hashing (attestationsOf S)) (hn : n.WithoutEvidence)
    (hn' : n'.WithoutEvidence) (hxs : ∀ g, g ∈ xs ↔ g ∈ S) (hys : ∀ g, g ∈ ys ↔ g ∈ S) :
    ∃ m m', (importServiceAggregates E xs).run n = .ok ⟨⟩ m ∧
      (importServiceAggregates E' ys).run n' = .ok ⟨⟩ m' ∧
      (∀ k v, (m.attestation k v).map (·.counters) = (m'.attestation k v).map (·.counters)) ∧
      ∀ k : ValidatorId × Epoch, (m.serviceAggregates[k]?).map (·.aggregateCounters) =
        (m'.serviceAggregates[k]?).map (·.aggregateCounters) := by
  have hsettled {E : Env} {n : Node} (hn : n.WithoutEvidence) : n.Settled E := by
    intro k v x hx
    rw [hn.attestation] at hx
    cases hx
  obtain ⟨m, hrun, hm, hms⟩ := hn.evidence.importServiceAggregates_run (hsettled hn) hcomparable
    hhashes (Set.empty_subset _) hv2 hvalid fun g hg => (hxs g).1 hg
  obtain ⟨m', hrun', hm', hms'⟩ := hn'.evidence.importServiceAggregates_run (hsettled hn')
    hcomparable (hhashing ▸ hhashes) (Set.empty_subset _) hv2' hvalid' fun g hg => (hys g).1 hg
  have hsame : attestationsOf {g | g ∈ xs} = attestationsOf {g | g ∈ ys} := by
    ext a
    simp only [attestationsOf, Set.mem_ofPred_eq, hxs, hys]
  rw [hsame] at hm
  exact ⟨m, m', hrun, hrun', hm.counters_eq hm', hm.aggregateCounters_eq hms hm' hms'⟩

/-! ## A run

The committee of validator 1 attests twice for epoch 2, with some uptime seen in between. -/

def earlyCounters : ServiceCounters :=
  { totalWindows := 5, expectedDeliveries := 5, expectedPeers := 2 }

def lateCounters : ServiceCounters := { earlyCounters with uptimeWindows := 4 }

def attestedAggregate (counters : ServiceCounters) : ServiceAggregate :=
  serviceAggregateForSubject (sampleEnv 1).consensus 1 2 counters

def attestedAggregates : List ServiceAggregate :=
  [attestedAggregate earlyCounters, attestedAggregate lateCounters]

/-- What committee member `v` attested. -/
def attestedBy (v : ValidatorId) : List ServiceAttestation :=
  [earlyCounters, lateCounters].map (signedServiceAttestation 1 v 2)

/-- A map with at most an attestation of member 2 and one of member 3. -/
def attestedMap (x y : Option ServiceAttestation) : BTreeMap ValidatorId ServiceAttestation :=
  ((∅ : BTreeMap ValidatorId ServiceAttestation).alter 2 fun _ => x).alter 3 fun _ => y

/-- The aggregates of at most one attestation of each member. -/
def choiceAggregates : List ServiceAggregate :=
  (none :: (attestedBy 2).map some).flatMap fun x => (none :: (attestedBy 3).map some).map fun y =>
    canonicalAggregate rollingHashing (1, 2) (attestedMap x y)

theorem attestedAggregates_attestations :
    ∀ a ∈ attestedAggregates.flatMap (·.attestations), a ∈ attestedBy 2 ++ attestedBy 3 := by
  decide +kernel

theorem attestedBy_facts : ∀ a ∈ attestedBy 2 ++ attestedBy 3, ∀ b ∈ attestedBy 2 ++ attestedBy 3,
    (a.committeeMemberId = b.committeeMemberId →
      serviceCountersDominate b.counters a.counters = true ∨
        serviceCountersDominate a.counters b.counters = true) ∧
    (serviceAttestationSigningHash rollingHashing a = serviceAttestationSigningHash rollingHashing b →
      a.unsigned = b.unsigned) := by
  decide +kernel

theorem attestedBy_members : ∀ a ∈ attestedBy 2 ++ attestedBy 3, a.key = (1, 2) ∧
    (a.committeeMemberId = 2 ∧ a ∈ attestedBy 2 ∨ a.committeeMemberId = 3 ∧ a ∈ attestedBy 3) := by
  decide +kernel

theorem choiceAggregates_nodup :
    (choiceAggregates.map fun g => rollingHashing.canonicalHash (.aggregate g)).Nodup := by
  decide +kernel

theorem attestedAggregates_valid : ∀ g ∈ attestedAggregates,
    validateServiceAggregate (sampleEnv 1) g = .ok () ∧
      validateServiceAggregate (sampleEnv 2) g = .ok () := by
  decide +kernel

theorem mem_attestedBy {a : ServiceAttestation}
    (ha : a ∈ attestationsOf {g | g ∈ attestedAggregates}) : a ∈ attestedBy 2 ++ attestedBy 3 := by
  obtain ⟨g, hg, ha⟩ := ha
  exact attestedAggregates_attestations a (List.mem_flatMap.2 ⟨g, hg, ha⟩)

/-- The aggregates that can be put together are the choices. -/
theorem assembled_subset_choices {g : ServiceAggregate}
    (hg : g ∈ assembled rollingHashing (attestationsOf {g | g ∈ attestedAggregates})) :
    g ∈ choiceAggregates := by
  obtain ⟨k, byMember, hfiled, hne, rfl⟩ := hg
  have hentry {v : ValidatorId} {x : ServiceAttestation} (hx : byMember[v]? = some x) :
      k = (1, 2) ∧ (v = 2 ∧ x ∈ attestedBy 2 ∨ v = 3 ∧ x ∈ attestedBy 3) := by
    obtain ⟨hmem, hkey, rfl⟩ := hfiled v x hx
    obtain ⟨hkey', hmember⟩ := attestedBy_members x (mem_attestedBy hmem)
    exact ⟨hkey.symm.trans hkey', hmember⟩
  have hmap : byMember = attestedMap byMember[(2 : ValidatorId)]? byMember[(3 : ValidatorId)]? := by
    refine Std.ExtTreeMap.ext_getElem? fun v => ?_
    rw [attestedMap, Std.ExtTreeMap.getElem?_alter, Std.ExtTreeMap.getElem?_alter]
    split_ifs with h3 h2
    · rw [← Std.compare_eq_iff_eq.1 h3]
    · rw [← Std.compare_eq_iff_eq.1 h2]
    · cases hx : byMember[v]? with
      | none => simp
      | some x =>
        rcases (hentry hx).2 with ⟨rfl, -⟩ | ⟨rfl, -⟩
        · exact absurd Std.ReflCmp.compare_self h2
        · exact absurd Std.ReflCmp.compare_self h3
  have hchoice (v : ValidatorId) (hv : v = 2 ∨ v = 3) :
      byMember[v]? ∈ none :: (attestedBy v).map some := by
    cases hx : byMember[v]? with
    | none => exact List.mem_cons_self
    | some x =>
      refine List.mem_cons_of_mem _ (List.mem_map.2 ⟨x, ?_, rfl⟩)
      rcases (hentry hx).2 with ⟨rfl, hmem⟩ | ⟨rfl, hmem⟩
      · exact hmem
      · exact hmem
  obtain rfl : k = (1, 2) := by
    rw [← Std.ExtTreeMap.isEmpty_toList] at hne
    obtain ⟨⟨v, x⟩, hmem⟩ := List.isEmpty_eq_false_iff_exists_mem.1 hne
    exact (hentry (Std.ExtTreeMap.mem_toList_iff_getElem?_eq_some.1 hmem)).1
  rw [hmap]
  exact List.mem_flatMap.2 ⟨_, hchoice 2 (.inl rfl), List.mem_map.2 ⟨_, hchoice 3 (.inr rfl), rfl⟩⟩

/-- Early and late evidence in two orders. -/
theorem evidence_in_two_orders : ∃ m m',
    (importServiceAggregates (sampleEnv 1)
      [attestedAggregate earlyCounters, attestedAggregate lateCounters]).run
        (.fresh (sampleEnv 1) none) = .ok ⟨⟩ m ∧
    (importServiceAggregates (sampleEnv 2) [attestedAggregate lateCounters,
      attestedAggregate earlyCounters, attestedAggregate lateCounters]).run
        (.fresh (sampleEnv 2) none) = .ok ⟨⟩ m' ∧
    (∀ k v, (m.attestation k v).map (·.counters) = (m'.attestation k v).map (·.counters)) ∧
    ∀ k : ValidatorId × Epoch, (m.serviceAggregates[k]?).map (·.aggregateCounters) =
      (m'.serviceAggregates[k]?).map (·.aggregateCounters) := by
  refine service_evidence_converges (sampleEnv 1) (sampleEnv 2) {g | g ∈ attestedAggregates} _ _ _ _
    rfl rfl rfl (fun g hg => (attestedAggregates_valid g hg).1)
    (fun g hg => (attestedAggregates_valid g hg).2) (fun a ha b hb _ hmember => ?_) ⟨?_, ?_⟩
    ⟨rfl, rfl, rfl, rfl⟩ ⟨rfl, rfl, rfl, rfl⟩ (fun g => ?_) fun g => ?_
  · exact (attestedBy_facts a (mem_attestedBy ha) b (mem_attestedBy hb)).1 hmember
  · exact fun a ha b hb => (attestedBy_facts a (mem_attestedBy ha) b (mem_attestedBy hb)).2
  · intro g hg g' hg' heq
    exact List.inj_on_of_nodup_map choiceAggregates_nodup (assembled_subset_choices hg)
      (assembled_subset_choices hg') heq
  · rfl
  · have hmem {α : Type} (x y z : α) : z ∈ [y, x, y] ↔ z ∈ [x, y] := by
      simp only [List.mem_cons]
      tauto
    exact hmem _ _ g

end Entangrid
