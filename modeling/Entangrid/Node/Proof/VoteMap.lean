import Entangrid.Node.Run

/-!
# Vote maps by lookup

One lemma per operation of the vote maps, in terms of `VoteMap.lookup`: what is found under a block's
hash and a validator afterwards.
-/

namespace Entangrid

namespace VoteMap

variable {votes : VoteMap} {vote : ProposalVote} {h : HashBytes} {v : ValidatorId}

theorem lookup_eq_some_iff {x : ProposalVote} :
    lookup votes h v = some x ↔ ∃ byValidator, votes[h]? = some byValidator ∧
      byValidator[v]? = some x := by
  unfold lookup
  rw [Std.ExtTreeMap.getD_eq_getD_getElem?]
  cases votes[h]? <;> simp

@[simp] theorem lookup_empty : lookup ∅ h v = none := by
  simp [lookup]

theorem lookup_store :
    lookup (store votes vote) h v =
      if h = vote.blockHash ∧ v = vote.validatorId then some vote else lookup votes h v := by
  unfold lookup store
  rw [Std.ExtTreeMap.getD_insert]
  by_cases hh : h = vote.blockHash
  · subst hh
    rw [if_pos Std.ReflCmp.compare_self, Std.ExtTreeMap.getElem?_insert]
    by_cases hv : v = vote.validatorId
    · subst hv
      simp
    · rw [if_neg (by simpa using Ne.symm hv), if_neg (fun hc => hv hc.2)]
  · rw [if_neg (by simpa using Ne.symm hh), if_neg (fun hc => hh hc.1)]

theorem lookup_remove :
    lookup (remove votes vote) h v =
      if h = vote.blockHash ∧ v = vote.validatorId then none else lookup votes h v := by
  unfold remove
  split
  · next hnone =>
    split_ifs with hc
    · obtain ⟨rfl, rfl⟩ := hc
      simp [lookup, Std.ExtTreeMap.getD_eq_getD_getElem?, hnone]
    · rfl
  · next byValidator hsome =>
    by_cases hh : h = vote.blockHash
    · subst hh
      have hlookup : lookup votes vote.blockHash v = byValidator[v]? := by
        simp [lookup, Std.ExtTreeMap.getD_eq_getD_getElem?, hsome]
      have herase : (byValidator.erase vote.validatorId)[v]? =
          if v = vote.validatorId then none else byValidator[v]? := by
        rw [Std.ExtTreeMap.getElem?_erase]
        by_cases hv : v = vote.validatorId
        · simp [hv]
        · rw [if_neg (by simpa using Ne.symm hv), if_neg hv]
      simp only [true_and, hlookup, ← herase]
      split_ifs with hempty
      · have : byValidator.erase vote.validatorId = ∅ := by simpa using hempty
        simp [lookup, Std.ExtTreeMap.getD_eq_getD_getElem?, this]
      · simp [lookup, Std.ExtTreeMap.getD_eq_getD_getElem?]
    · have hother : ¬(h = vote.blockHash ∧ v = vote.validatorId) := fun hc => hh hc.1
      rw [if_neg hother]
      dsimp only
      split_ifs with hempty
      · rw [lookup, Std.ExtTreeMap.getD_erase, if_neg (by simpa using Ne.symm hh)]
        rfl
      · rw [lookup, Std.ExtTreeMap.getD_insert, if_neg (by simpa using Ne.symm hh)]
        rfl

/-- A found vote that another block's certified vote of its validator outnumbers. -/
def Conflicts (vote : ProposalVote) (h : HashBytes) (v : ValidatorId) (x : ProposalVote) : Prop :=
  h ≠ vote.blockHash ∧ v = vote.validatorId ∧ x.blockHash ≠ vote.blockHash ∧
    x.blockNumber = vote.blockNumber

theorem lookup_removeConflicting {x : ProposalVote} :
    lookup (removeConflicting votes vote) h v = some x ↔
      lookup votes h v = some x ∧ ¬Conflicts vote h v x := by
  simp only [lookup_eq_some_iff, removeConflicting, Std.ExtTreeMap.getElem?_filterMap',
    Option.bind_eq_some_iff]
  constructor
  · rintro ⟨rest, ⟨byValidator, hfound, hrest⟩, hx⟩
    split_ifs at hrest with hne hempty hempty'
    · cases hrest
      rw [Std.ExtTreeMap.getElem?_filter', Option.filter_eq_some_iff] at hx
      refine ⟨⟨byValidator, hfound, hx.1⟩, fun hc => ?_⟩
      simpa [hc.2.1, hc.2.2.1, hc.2.2.2] using hx.2
    · obtain rfl := Option.some.inj hrest
      exact ⟨⟨_, hfound, hx⟩, fun hc => hne hc.1⟩
  · rintro ⟨⟨byValidator, hfound, hx⟩, hc⟩
    have hkeep : ∀ rest : BTreeMap ValidatorId ProposalVote, rest[v]? = some x →
        ¬rest.isEmpty = true := by
      rintro rest hx hempty
      simp [Std.ExtTreeMap.isEmpty_iff.1 hempty] at hx
    split_ifs with hne
    · have hx' : (byValidator.filter fun validatorId existing =>
          !(validatorId == vote.validatorId && existing.blockHash != vote.blockHash &&
            existing.blockNumber == vote.blockNumber))[v]? = some x := by
        rw [Std.ExtTreeMap.getElem?_filter', Option.filter_eq_some_iff]
        refine ⟨hx, ?_⟩
        simp only [Conflicts, not_and] at hc
        by_cases h1 : v = vote.validatorId
        · by_cases h2 : x.blockHash = vote.blockHash
          · simp [h2]
          · simp [h1, h2, hc hne h1 h2]
        · simp [h1]
      exact ⟨_, ⟨byValidator, hfound, by rw [if_neg (hkeep _ hx')]⟩, hx'⟩
    · exact ⟨byValidator, ⟨byValidator, hfound, by rw [if_neg (hkeep _ hx)]⟩, hx⟩

theorem lookup_filter {keep : HashBytes → BTreeMap ValidatorId ProposalVote → Bool}
    {x : ProposalVote} :
    lookup (votes.filter keep) h v = some x ↔ ∃ byValidator, votes[h]? = some byValidator ∧
      keep h byValidator = true ∧ byValidator[v]? = some x := by
  simp only [lookup_eq_some_iff, Std.ExtTreeMap.getElem?_filter', Option.filter_eq_some_iff]
  exact ⟨fun ⟨m, ⟨hm, hk⟩, hx⟩ => ⟨m, hm, hk, hx⟩, fun ⟨m, hm, hk, hx⟩ => ⟨m, ⟨hm, hk⟩, hx⟩⟩

theorem lookup_of_filter {keep : HashBytes → BTreeMap ValidatorId ProposalVote → Bool}
    {x : ProposalVote} (hx : lookup (votes.filter keep) h v = some x) :
    lookup votes h v = some x := by
  obtain ⟨m, hm, -, hx⟩ := lookup_filter.1 hx
  exact lookup_eq_some_iff.2 ⟨m, hm, hx⟩

theorem lookup_erase {h' : HashBytes} :
    lookup (Std.ExtTreeMap.erase votes h') h v = if h = h' then none else lookup votes h v := by
  unfold lookup
  rw [Std.ExtTreeMap.getD_erase]
  by_cases hh : h = h'
  · simp [hh]
  · rw [if_neg (by simpa using Ne.symm hh), if_neg hh]

theorem mem_votesOf {x : ProposalVote} : x ∈ Node.votesOf votes v ↔ ∃ h, lookup votes h v = some x := by
  simp only [Node.votesOf, List.mem_filterMap, lookup_eq_some_iff, Prod.exists,
    Std.ExtTreeMap.mem_toList_iff_getElem?_eq_some]

/-- Removing votes one after the other. -/
theorem lookup_foldl_remove {removed : List ProposalVote} {x : ProposalVote} :
    lookup (removed.foldl remove votes) h v = some x ↔
      lookup votes h v = some x ∧ ∀ r ∈ removed, ¬(h = r.blockHash ∧ v = r.validatorId) := by
  induction removed generalizing votes with
  | nil => simp
  | cons r rest ih =>
    rw [List.foldl_cons, ih, lookup_remove]
    split_ifs with hr
    · simp [hr]
    · simp only [List.forall_mem_cons, hr, not_false_eq_true, true_and]

/-! ## No entry is empty -/

/-- Every block with an entry has a vote. -/
def NoEmpty (votes : VoteMap) : Prop :=
  ∀ (h : HashBytes) (byValidator : BTreeMap ValidatorId ProposalVote),
    votes[h]? = some byValidator → byValidator.isEmpty = false

namespace NoEmpty

theorem empty : NoEmpty ∅ := by simp [NoEmpty]

theorem store (hv : NoEmpty votes) (vote : ProposalVote) : NoEmpty (VoteMap.store votes vote) := by
  intro h byValidator hfound
  rw [VoteMap.store, Std.ExtTreeMap.getElem?_insert] at hfound
  split_ifs at hfound
  · obtain rfl := Option.some.inj hfound
    simp
  · exact hv h byValidator hfound

theorem remove (hv : NoEmpty votes) (vote : ProposalVote) : NoEmpty (VoteMap.remove votes vote) := by
  unfold VoteMap.remove
  split
  · exact hv
  · intro h rest hfound
    dsimp only at hfound
    split_ifs at hfound with hempty
    · rw [Std.ExtTreeMap.getElem?_erase] at hfound
      split_ifs at hfound
      exact hv h rest hfound
    · rw [Std.ExtTreeMap.getElem?_insert] at hfound
      split_ifs at hfound
      · obtain rfl := Option.some.inj hfound
        simpa using hempty
      · exact hv h rest hfound

theorem foldl_remove (hv : NoEmpty votes) (removed : List ProposalVote) :
    NoEmpty (removed.foldl VoteMap.remove votes) := by
  induction removed generalizing votes with
  | nil => exact hv
  | cons vote rest ih => exact ih (hv.remove vote)

theorem removeConflicting (vote : ProposalVote) : NoEmpty (VoteMap.removeConflicting votes vote) := by
  intro h rest hfound
  simp only [VoteMap.removeConflicting, Std.ExtTreeMap.getElem?_filterMap',
    Option.bind_eq_some_iff] at hfound
  obtain ⟨byValidator, -, hrest⟩ := hfound
  split_ifs at hrest with hne hempty hempty'
  · obtain rfl := Option.some.inj hrest
    simpa using hempty
  · obtain rfl := Option.some.inj hrest
    simpa using hempty'

theorem filter (hv : NoEmpty votes)
    (keep : HashBytes → BTreeMap ValidatorId ProposalVote → Bool) : NoEmpty (votes.filter keep) := by
  intro h byValidator hfound
  rw [Std.ExtTreeMap.getElem?_filter', Option.filter_eq_some_iff] at hfound
  exact hv h byValidator hfound.1

end NoEmpty

end VoteMap

namespace Node

theorem mem_heldVotesOf {n : Node} {v : ValidatorId} {x : ProposalVote} :
    x ∈ n.heldVotesOf v ↔ ∃ h, VoteMap.lookup n.proposalVotes h v = some x ∨
      VoteMap.lookup n.bufferedProposalVotes h v = some x := by
  simp only [heldVotesOf, List.mem_append, VoteMap.mem_votesOf, exists_or]

end Node

end Entangrid
