import Mathlib.Data.Finset.Sort

/-!
# The greatest of a union, without repeated keys

A bounded list of items in descending order is merged with another one: sort both together, drop the
items that repeat the key of the item before them, keep the first `limit`. Items with one key need not
be neighbours, so this is not the same as keeping, of the greatest items of each key, the `limit`
greatest (`unionTop`). It is if every item whose key comes back, with another key in between, has
`limit` keys above it (`Apart`).

* `mergeLists_eq`: the merge of two lists, by what it keeps of the set of their items (`merged`).
* `merged_absorb`: merging with something that has been merged before changes nothing.
* `foldl_merged`: if the union of all is `Apart`, merging one after the other, in whatever order, keeps
  `unionTop` of the union.
-/

namespace TopUnion

variable {α κ : Type*} [LinearOrder α] [DecidableEq κ]

section
variable (key : α → κ) (limit : Nat)

/-- Of neighbours with one key the first stays. -/
def dropRepeats : List α → List α
  | [] => []
  | a :: rest =>
    match dropRepeats rest with
    | [] => [a]
    | b :: rest' => if key a = key b then a :: rest' else a :: b :: rest'

def mergeLists (xs ys : List α) : List α :=
  (dropRepeats key ((xs ++ ys).insertionSort (· ≥ ·))).take limit

/-- The items that no item of their key comes right before in descending order. -/
def leaders (s : Finset α) : Finset α :=
  s.filter fun g => ∀ e ∈ s, g < e → key e = key g → ∃ f ∈ s, g < f ∧ f < e ∧ key f ≠ key g

/-- The items with fewer than `limit` greater ones. -/
def greatest (s : Finset α) : Finset α := s.filter fun a => (s.filter (a < ·)).card < limit

/-- What a merge keeps of the items of two lists. -/
def merged (s : Finset α) : Finset α := greatest limit (leaders key s)

/-- The greatest item of every key. -/
def newest (s : Finset α) : Finset α := s.filter fun g => ∀ e ∈ s, key e = key g → e ≤ g

/-- The `limit` greatest of the greatest items of every key. -/
def unionTop (s : Finset α) : Finset α := greatest limit (newest key s)

/-- How many keys the items above `g` have. -/
def keysAbove (s : Finset α) (g : α) : Nat := ((s.filter (g < ·)).image key).card

/-- The key of `g` comes back after an item of another key. -/
def ComesBack (s : Finset α) (g : α) : Prop :=
  g ∈ s ∧ ∃ e ∈ s, ∃ f ∈ s, g < f ∧ f < e ∧ key e = key g ∧ key f ≠ key g

/-- Every item whose key comes back has `limit` keys above it. -/
def Apart (s : Finset α) : Prop := ∀ g, ComesBack key s g → limit ≤ keysAbove key s g

end

variable {key : α → κ} {limit : Nat} {s t : Finset α} {a g : α} {xs ys : List α}

theorem mem_leaders : g ∈ leaders key s ↔ g ∈ s ∧ ∀ e ∈ s, g < e → key e = key g →
    ∃ f ∈ s, g < f ∧ f < e ∧ key f ≠ key g := Finset.mem_filter

theorem mem_greatest : a ∈ greatest limit s ↔ a ∈ s ∧ (s.filter (a < ·)).card < limit :=
  Finset.mem_filter

theorem mem_newest : g ∈ newest key s ↔ g ∈ s ∧ ∀ e ∈ s, key e = key g → e ≤ g := Finset.mem_filter

/-! ## Sorted lists -/

section
omit [LinearOrder α]

variable (key) in
theorem dropRepeats_cons (a : α) (rest : List α) : ∃ tail, dropRepeats key (a :: rest) = a :: tail := by
  unfold dropRepeats
  cases dropRepeats key rest with
  | nil => exact ⟨_, rfl⟩
  | cons b rest' =>
    dsimp only
    split_ifs
    · exact ⟨_, rfl⟩
    · exact ⟨_, rfl⟩

theorem dropRepeats_of_cons {a b : α} {rest tail : List α} (h : dropRepeats key rest = b :: tail) :
    dropRepeats key (a :: rest) = if key a = key b then a :: tail else a :: b :: tail := by
  rw [dropRepeats, h]

theorem mem_of_mem_dropRepeats (h : g ∈ dropRepeats key xs) : g ∈ xs := by
  induction xs with
  | nil => exact h
  | cons a rest ih =>
    unfold dropRepeats at h
    cases hrest : dropRepeats key rest with
    | nil =>
      rw [hrest] at h
      exact List.mem_cons.2 (.inl (List.mem_singleton.1 h))
    | cons b rest' =>
      rw [hrest] at h ih
      dsimp only at h
      split_ifs at h
      · rcases List.mem_cons.1 h with rfl | h
        · exact List.mem_cons_self
        · exact List.mem_cons_of_mem _ (ih (List.mem_cons_of_mem _ h))
      · rcases List.mem_cons.1 h with rfl | h
        · exact List.mem_cons_self
        · exact List.mem_cons_of_mem _ (ih h)

end

/-- What is left of a descending list is strictly descending. -/
theorem pairwise_dropRepeats (hsorted : xs.Pairwise (· ≥ ·)) :
    (dropRepeats key xs).Pairwise (· > ·) := by
  induction xs with
  | nil => exact List.Pairwise.nil
  | cons a rest ih =>
    obtain ⟨hge, hrest⟩ := List.pairwise_cons.1 hsorted
    have hleft := ih hrest
    have hmem (x : α) (hx : x ∈ dropRepeats key rest) : x ≤ a := hge x (mem_of_mem_dropRepeats hx)
    unfold dropRepeats
    cases htail : dropRepeats key rest with
    | nil => exact List.pairwise_singleton _ _
    | cons b rest' =>
      rw [htail] at hleft hmem
      have hba := hmem b List.mem_cons_self
      obtain ⟨hlt, hrest'⟩ := List.pairwise_cons.1 hleft
      dsimp only
      split_ifs with hkey
      · exact List.pairwise_cons.2 ⟨fun x hx => (hlt x hx).trans_le hba, hrest'⟩
      · have hab : b < a := lt_of_le_of_ne hba fun heq => hkey (heq ▸ rfl)
        refine List.pairwise_cons.2 ⟨fun x hx => ?_, hleft⟩
        rcases List.mem_cons.1 hx with rfl | hx
        · exact hab
        · exact (hlt x hx).trans hab

/-- An item below a new greatest one still leads, unless its key is that of the new one and no other key
comes in between. -/
theorem mem_leaders_insert (ha : ∀ x ∈ s, x ≤ a) (hga : g ≠ a) :
    g ∈ leaders key (insert a s) ↔ g ∈ leaders key s ∧
      (key a = key g → ∃ f ∈ s, g < f ∧ f < a ∧ key f ≠ key g) := by
  have hbelow {f e : α} (hf : f ∈ insert a s) (hfe : f < e) (hea : e ≤ a) : f ∈ s := by
    rcases Finset.mem_insert.1 hf with rfl | hf
    · exact absurd (hfe.trans_le hea) (lt_irrefl _)
    · exact hf
  simp only [mem_leaders]
  constructor
  · rintro ⟨hg, hleads⟩
    have hgs : g ∈ s := (Finset.mem_insert.1 hg).resolve_left hga
    refine ⟨⟨hgs, fun e he hlt hkey => ?_⟩, fun hkey => ?_⟩
    · obtain ⟨f, hf, hgf, hfe, hne⟩ := hleads e (Finset.mem_insert_of_mem he) hlt hkey
      exact ⟨f, hbelow hf hfe (ha e he), hgf, hfe, hne⟩
    · obtain ⟨f, hf, hgf, hfa, hne⟩ := hleads a (Finset.mem_insert_self a s)
        (lt_of_le_of_ne (ha g hgs) hga) hkey
      exact ⟨f, hbelow hf hfa le_rfl, hgf, hfa, hne⟩
  · rintro ⟨⟨hgs, hleads⟩, htop⟩
    refine ⟨Finset.mem_insert_of_mem hgs, fun e he hlt hkey => ?_⟩
    rcases Finset.mem_insert.1 he with rfl | he
    · obtain ⟨f, hf, hbetween⟩ := htop hkey
      exact ⟨f, Finset.mem_insert_of_mem hf, hbetween⟩
    · obtain ⟨f, hf, hbetween⟩ := hleads e he hlt hkey
      exact ⟨f, Finset.mem_insert_of_mem hf, hbetween⟩

/-- **What is left of a descending list are the leaders.** -/
theorem mem_dropRepeats (hsorted : xs.Pairwise (· ≥ ·)) :
    g ∈ dropRepeats key xs ↔ g ∈ leaders key xs.toFinset := by
  induction xs with
  | nil => simp [dropRepeats, leaders]
  | cons a rest ih =>
    obtain ⟨hge, hrest⟩ := List.pairwise_cons.1 hsorted
    have ha (x : α) (hx : x ∈ rest.toFinset) : x ≤ a := hge x (List.mem_toFinset.1 hx)
    rw [List.toFinset_cons]
    by_cases hga : g = a
    · subst hga
      obtain ⟨tail, htail⟩ := dropRepeats_cons key g rest
      rw [htail]
      refine iff_of_true List.mem_cons_self (mem_leaders.2 ⟨Finset.mem_insert_self g _, ?_⟩)
      intro e he hlt
      rcases Finset.mem_insert.1 he with rfl | he
      · exact absurd hlt (lt_irrefl _)
      · exact absurd hlt (ha e he).not_gt
    · rw [mem_leaders_insert ha hga, ← ih hrest]
      cases rest with
      | nil => simp [dropRepeats, hga]
      | cons b rest' =>
        obtain ⟨tail, htail⟩ := dropRepeats_cons key b rest'
        have hleads := ih hrest
        have hstrict : (dropRepeats key (b :: rest')).Pairwise (· > ·) := pairwise_dropRepeats hrest
        rw [htail] at hleads hstrict
        rw [dropRepeats_of_cons htail, htail]
        have hgtail := (List.pairwise_cons.1 hstrict).1
        have hb (x : α) (hx : x ∈ (b :: rest').toFinset) : x ≤ b := by
          rcases List.mem_cons.1 (List.mem_toFinset.1 hx) with rfl | hx
          · exact le_rfl
          · exact (List.pairwise_cons.1 hrest).1 x hx
        have hba : b ≤ a := ha b (by simp)
        have hbmem : b ∈ (b :: rest').toFinset := by simp
        split_ifs with hkey
        · -- `a` takes the place of `b`, which has no other key before it
          rw [List.mem_cons, or_iff_right hga]
          constructor
          · intro hg
            have hgb : g < b := hgtail g hg
            refine ⟨List.mem_cons_of_mem _ hg, fun hag => ?_⟩
            obtain ⟨f, hf, hgf, hfb, hne⟩ := (mem_leaders.1 (hleads.1 (List.mem_cons_of_mem _ hg))).2 b
              hbmem hgb (hkey.symm.trans hag)
            exact ⟨f, hf, hgf, hfb.trans_le hba, hne⟩
          · rintro ⟨hg, htop⟩
            rcases List.mem_cons.1 hg with rfl | hg
            · obtain ⟨f, hf, hgf, -⟩ := htop hkey
              exact absurd hgf (hb f hf).not_gt
            · exact hg
        · -- `b` comes between `a` and what has the key of `a`
          rw [List.mem_cons, or_iff_right hga, iff_self_and]
          intro hg hag
          have hgb : g ≠ b := fun heq => hkey (hag.trans (heq ▸ rfl))
          have hgle : g ≤ b := hb g (mem_leaders.1 (hleads.1 hg)).1
          exact ⟨b, hbmem, lt_of_le_of_ne hgle hgb, lt_of_le_of_ne hba fun heq => hkey (heq ▸ rfl),
            fun heq => hkey (hag.trans heq.symm)⟩

/-- In a descending list, an item is among the first if few are greater. -/
theorem mem_take_iff (hsorted : xs.Pairwise (· > ·)) :
    a ∈ xs.take limit ↔ a ∈ xs ∧ (xs.filter (a < ·)).length < limit := by
  induction xs generalizing limit with
  | nil => simp
  | cons b rest ih =>
    obtain ⟨hlt, hrest⟩ := List.pairwise_cons.1 hsorted
    cases limit with
    | zero => simp
    | succ limit =>
      rw [List.take_succ_cons, List.mem_cons, List.mem_cons, ih hrest]
      by_cases hab : a = b
      · subst hab
        have hnone : (a :: rest).filter (a < ·) = [] := by
          simp only [List.filter_eq_nil_iff, decide_eq_true_eq, not_lt, List.mem_cons]
          rintro x (rfl | hx)
          · exact le_rfl
          · exact (hlt x hx).le
        simp [hnone]
      · by_cases hmem : a ∈ rest
        · simp [hab, hmem, hlt a hmem]
        · simp [hab, hmem]

/-- A strictly descending list is determined by its items. -/
theorem eq_of_mem_iff (hx : xs.Pairwise (· > ·)) (hy : ys.Pairwise (· > ·))
    (h : ∀ a, a ∈ xs ↔ a ∈ ys) : xs = ys :=
  List.Subset.antisymm_of_pairwise hx hy (fun a ha => (h a).1 ha) fun a ha => (h a).2 ha

/-- The first of a descending list are the greatest. -/
theorem take_sort (limit : Nat) (s : Finset α) :
    (s.sort (· ≥ ·)).take limit = (greatest limit s).sort (· ≥ ·) := by
  have hstrict : (s.sort (· ≥ ·)).Pairwise (· > ·) := (Finset.sortedGT_sort s).pairwise
  have hcount (a : α) : ((s.sort (· ≥ ·)).filter (a < ·)).length = (s.filter (a < ·)).card := by
    have hnodup : ((s.sort (· ≥ ·)).filter (a < ·)).Nodup := (Finset.sort_nodup s _).filter _
    rw [← List.toFinset_card_of_nodup hnodup]
    congr 1
    ext x
    simp
  have hmem (x : α) : x ∈ (s.sort (· ≥ ·)).take limit ↔ x ∈ (greatest limit s).sort (· ≥ ·) := by
    rw [mem_take_iff hstrict, hcount, Finset.mem_sort, Finset.mem_sort, mem_greatest]
  exact eq_of_mem_iff (hstrict.sublist (List.take_sublist _ _)) (Finset.sortedGT_sort _).pairwise hmem

theorem dropRepeats_eq_sort (hsorted : xs.Pairwise (· ≥ ·)) :
    dropRepeats key xs = (leaders key xs.toFinset).sort (· ≥ ·) := by
  have hmem (x : α) : x ∈ dropRepeats key xs ↔ x ∈ (leaders key xs.toFinset).sort (· ≥ ·) := by
    rw [mem_dropRepeats hsorted, Finset.mem_sort]
  exact eq_of_mem_iff (pairwise_dropRepeats hsorted) (Finset.sortedGT_sort _).pairwise hmem

/-- **A merge of lists, by what it keeps of the set of their items.** -/
theorem mergeLists_eq (xs ys : List α) : mergeLists key limit xs ys =
    (merged key limit (xs.toFinset ∪ ys.toFinset)).sort (· ≥ ·) := by
  have hitems : ((xs ++ ys).insertionSort (· ≥ ·)).toFinset = xs.toFinset ∪ ys.toFinset := by
    ext x
    simp
  rw [mergeLists, dropRepeats_eq_sort (List.pairwise_insertionSort _ _), hitems, take_sort, merged]

/-! ## The greatest items -/

theorem card_greatest (limit : Nat) (s : Finset α) : (greatest limit s).card = min limit s.card := by
  rw [← Finset.length_sort (· ≥ ·) (s := greatest limit s), ← take_sort, List.length_take,
    Finset.length_sort]

theorem card_above_anti (h : a ≤ g) : (s.filter (g < ·)).card ≤ (s.filter (a < ·)).card := by
  refine Finset.card_le_card fun x hx => ?_
  obtain ⟨hxs, hlt⟩ := Finset.mem_filter.1 hx
  exact Finset.mem_filter.2 ⟨hxs, h.trans_lt hlt⟩

theorem card_above_le (h : ∀ x ∈ s, g < x → x ∈ t) :
    (s.filter (g < ·)).card ≤ (t.filter (g < ·)).card := by
  refine Finset.card_le_card fun x hx => ?_
  obtain ⟨hxs, hlt⟩ := Finset.mem_filter.1 hx
  exact Finset.mem_filter.2 ⟨h x hxs hlt, hlt⟩

/-- If enough items are above `a`, enough of the greatest ones are. -/
theorem le_card_greatest_above (h : limit ≤ (s.filter (a < ·)).card) :
    limit ≤ ((greatest limit s).filter (a < ·)).card := by
  have hsub : greatest limit (s.filter (a < ·)) ⊆ (greatest limit s).filter (a < ·) := by
    intro x hx
    obtain ⟨hxs, hfew⟩ := mem_greatest.1 hx
    obtain ⟨hxs, hax⟩ := Finset.mem_filter.1 hxs
    refine Finset.mem_filter.2 ⟨mem_greatest.2 ⟨hxs, ?_⟩, hax⟩
    have habove : (s.filter (a < ·)).filter (x < ·) = s.filter (x < ·) := by
      rw [Finset.filter_filter]
      exact Finset.filter_congr fun y _ => ⟨fun h => h.2, fun h => ⟨hax.trans h, h⟩⟩
    rwa [habove] at hfew
  have hcard := Finset.card_le_card hsub
  rw [card_greatest] at hcard
  omega

/-! ## Leaders and newest items -/

theorem merged_subset : merged key limit s ⊆ s :=
  fun _ hg => (mem_leaders.1 (mem_greatest.1 hg).1).1

variable (key) in
theorem exists_newest (ha : a ∈ s) : ∃ b ∈ newest key s, key b = key a ∧ a ≤ b := by
  have hne : (s.filter (key · = key a)).Nonempty := ⟨a, Finset.mem_filter.2 ⟨ha, rfl⟩⟩
  obtain ⟨hb, hkey⟩ := Finset.mem_filter.1 (Finset.max'_mem _ hne)
  refine ⟨_, mem_newest.2 ⟨hb, fun e he hsame => ?_⟩, hkey, ?_⟩
  · exact Finset.le_max' _ e (Finset.mem_filter.2 ⟨he, hsame.trans hkey⟩)
  · exact Finset.le_max' (s.filter (key · = key a)) a (Finset.mem_filter.2 ⟨ha, rfl⟩)

theorem newest_subset_leaders : newest key s ⊆ leaders key s := by
  intro g hg
  obtain ⟨hgs, hnewest⟩ := mem_newest.1 hg
  exact mem_leaders.2 ⟨hgs, fun e he hlt hkey => absurd hlt (hnewest e he hkey).not_gt⟩

theorem key_injOn_newest : Set.InjOn key (newest key s) := by
  intro a ha b hb heq
  obtain ⟨has, ha⟩ := mem_newest.1 ha
  obtain ⟨hbs, hb⟩ := mem_newest.1 hb
  exact le_antisymm (hb a has heq) (ha b hbs heq.symm)

/-- There is a newest item above `g` for every key above `g`. -/
theorem card_newest_above (s : Finset α) (g : α) :
    ((newest key s).filter (g < ·)).card = keysAbove key s g := by
  have himage : ((newest key s).filter (g < ·)).image key = (s.filter (g < ·)).image key := by
    ext k
    simp only [Finset.mem_image, Finset.mem_filter]
    constructor
    · rintro ⟨x, ⟨hx, hlt⟩, rfl⟩
      exact ⟨x, ⟨(mem_newest.1 hx).1, hlt⟩, rfl⟩
    · rintro ⟨x, ⟨hx, hlt⟩, rfl⟩
      obtain ⟨y, hy, hkey, hle⟩ := exists_newest key hx
      exact ⟨y, ⟨hy, hlt.trans_le hle⟩, hkey⟩
  rw [keysAbove, ← himage, Finset.card_image_of_injOn]
  exact key_injOn_newest.mono fun x hx => (Finset.mem_filter.1 hx).1

theorem mem_unionTop : g ∈ unionTop key limit s ↔ g ∈ newest key s ∧ keysAbove key s g < limit := by
  rw [unionTop, mem_greatest, card_newest_above]

theorem keysAbove_mono (h : s ⊆ t) : keysAbove key s g ≤ keysAbove key t g :=
  Finset.card_le_card (Finset.image_subset_image (Finset.filter_subset_filter _ h))

theorem keysAbove_anti (h : a ≤ g) : keysAbove key s g ≤ keysAbove key s a := by
  refine Finset.card_le_card (Finset.image_subset_image fun x hx => ?_)
  obtain ⟨hx, hlt⟩ := Finset.mem_filter.1 hx
  exact Finset.mem_filter.2 ⟨hx, h.trans_lt hlt⟩

omit [DecidableEq κ] in
theorem ComesBack.mono (h : ComesBack key s g) (hsub : s ⊆ t) : ComesBack key t g := by
  obtain ⟨hg, e, he, f, hf, hbetween⟩ := h
  exact ⟨hsub hg, e, hsub he, f, hsub hf, hbetween⟩

/-- A leader with a greater item of its key comes back. -/
theorem comesBack_of_leader (h : g ∈ leaders key s) (hnewest : g ∉ newest key s) :
    ComesBack key s g := by
  obtain ⟨hg, hleads⟩ := mem_leaders.1 h
  obtain ⟨e, he, hkey, hlt⟩ : ∃ e ∈ s, key e = key g ∧ g < e := by
    by_contra hnone
    push Not at hnone
    exact hnewest (mem_newest.2 ⟨hg, hnone⟩)
  obtain ⟨f, hf, hgf, hfe, hne⟩ := hleads e he hlt hkey
  exact ⟨hg, e, he, f, hf, hgf, hfe, hkey, hne⟩

variable (key) in
/-- Every item has a leader of its key with no other key in between. -/
theorem exists_leader (ha : a ∈ s) : ∃ b ∈ leaders key s, a ≤ b ∧ key b = key a ∧
    ∀ e ∈ s, a ≤ e → e ≤ b → key e = key a := by
  have hne : (s.filter fun x => a ≤ x ∧ ∀ y ∈ s, a ≤ y → y ≤ x → key y = key a).Nonempty :=
    ⟨a, Finset.mem_filter.2 ⟨ha, le_rfl, fun y _ hay hya => by rw [le_antisymm hya hay]⟩⟩
  have hmem := Finset.max'_mem _ hne
  generalize hb : Finset.max' _ hne = b at hmem
  obtain ⟨hbs, hab, hsame⟩ := Finset.mem_filter.1 hmem
  refine ⟨b, mem_leaders.2 ⟨hbs, fun e he hlt hkey => ?_⟩, hab, hsame b hbs hab le_rfl, hsame⟩
  by_contra hnone
  push Not at hnone
  have hrun : ∀ y ∈ s, a ≤ y → y ≤ e → key y = key a := by
    intro y hy hay hye
    by_cases hyb : y ≤ b
    · exact hsame y hy hay hyb
    · rcases eq_or_lt_of_le hye with rfl | hlt'
      · exact hkey.trans (hsame b hbs hab le_rfl)
      · exact (hnone y hy (not_le.1 hyb) hlt').trans (hsame b hbs hab le_rfl)
  have hmem : e ∈ s.filter fun x => a ≤ x ∧ ∀ y ∈ s, a ≤ y → y ≤ x → key y = key a :=
    Finset.mem_filter.2 ⟨he, hab.trans hlt.le, hrun⟩
  have hle : e ≤ b := hb ▸ Finset.le_max' _ e hmem
  exact absurd hlt hle.not_gt

/-- **Merging with what has been merged before changes nothing.** -/
theorem merged_absorb (hsub : t ⊆ s) :
    merged key limit (merged key limit s ∪ t) = merged key limit s := by
  have hkept : merged key limit s ∪ t ⊆ s :=
    Finset.union_subset merged_subset hsub
  -- what was kept still leads
  have hleads : merged key limit s ⊆ leaders key (merged key limit s ∪ t) := by
    intro g hg
    obtain ⟨hgleads, hfew⟩ := mem_greatest.1 hg
    refine mem_leaders.2 ⟨Finset.mem_union_left _ hg, fun e he hlt hkey => ?_⟩
    obtain ⟨f, hf, hgf, hfe, hne⟩ := (mem_leaders.1 hgleads).2 e (hkept he) hlt hkey
    obtain ⟨b, hb, hfb, hbkey, hsame⟩ := exists_leader key hf
    have hbe : b < e := by
      by_contra hle
      exact hne ((hsame e (hkept he) hfe.le (not_lt.1 hle)).symm.trans hkey)
    refine ⟨b, Finset.mem_union_left _ (mem_greatest.2 ⟨hb, ?_⟩), hgf.trans_le hfb, hbe,
      fun heq => hne (hbkey.symm.trans heq)⟩
    exact (card_above_anti (hgf.trans_le hfb).le).trans_lt hfew
  -- and nothing new comes among the greatest
  have hmany {g : α} (h : limit ≤ ((leaders key s).filter (g < ·)).card) :
      limit ≤ ((leaders key (merged key limit s ∪ t)).filter (g < ·)).card :=
    (le_card_greatest_above h).trans (card_above_le fun x hx _ => hleads hx)
  have hold : merged key limit (merged key limit s ∪ t) ⊆ merged key limit s := by
    intro g hg
    obtain ⟨hgleads, hfew⟩ := mem_greatest.1 hg
    obtain ⟨hgmem, hgfirst⟩ := mem_leaders.1 hgleads
    obtain ⟨b, hb, hgb, hbkey, hsame⟩ := exists_leader key (hkept hgmem)
    have hbmerged : b ∈ merged key limit s := by
      refine mem_greatest.2 ⟨hb, ?_⟩
      by_contra hcard
      have hbelow : ((leaders key s).filter (b < ·)).card ≤ ((leaders key s).filter (g < ·)).card :=
        card_above_anti hgb
      have := hmany (g := g) (by omega)
      omega
    rcases eq_or_lt_of_le hgb with rfl | hlt
    · exact hbmerged
    · obtain ⟨f, hf, hgf, hfb, hne⟩ := hgfirst b (Finset.mem_union_left _ hbmerged) hlt hbkey
      exact absurd (hsame f (hkept hf) hgf.le hfb.le) hne
  -- of which none is pushed out
  refine Finset.Subset.antisymm hold fun g hg => mem_greatest.2 ⟨hleads hg, ?_⟩
  by_contra hcard
  have habove := le_card_greatest_above (not_lt.1 hcard)
  have hle : ((greatest limit (leaders key (merged key limit s ∪ t))).filter (g < ·)).card ≤
      ((leaders key s).filter (g < ·)).card :=
    card_above_le fun x hx _ => (mem_greatest.1 (hold hx)).1
  have hfew := (mem_greatest.1 hg).2
  omega

/-! ## Merging what is apart -/

/-- What is among the greatest of the whole is kept by the merge of any part that has it. -/
theorem mem_merged (hapart : Apart key limit t) (hsub : s ⊆ t) (hg : g ∈ unionTop key limit t)
    (hgs : g ∈ s) : g ∈ merged key limit s := by
  obtain ⟨hnewest, hfew⟩ := mem_unionTop.1 hg
  have hnew : g ∈ newest key s :=
    mem_newest.2 ⟨hgs, fun e he => (mem_newest.1 hnewest).2 e (hsub he)⟩
  have hcard : ((leaders key s).filter (g < ·)).card ≤ ((newest key s).filter (g < ·)).card := by
    apply card_above_le
    intro x hleads hlt
    by_contra hold
    have hmany := hapart x ((comesBack_of_leader hleads hold).mono hsub)
    have hless : keysAbove key t x ≤ keysAbove key t g := keysAbove_anti hlt.le
    omega
  refine mem_greatest.2 ⟨newest_subset_leaders hnew, ?_⟩
  rw [card_newest_above] at hcard
  have hless : keysAbove key s g ≤ keysAbove key t g := keysAbove_mono hsub
  omega

/-- **The merge of a part that has the greatest of the whole keeps exactly these.** -/
theorem merged_eq (hapart : Apart key limit t) (hsub : s ⊆ t) (hall : unionTop key limit t ⊆ s) :
    merged key limit s = unionTop key limit t := by
  refine Finset.Subset.antisymm (fun m hm => ?_) fun g hg => mem_merged hapart hsub hg (hall hg)
  obtain ⟨hleads, hfew⟩ := mem_greatest.1 hm
  have hms := (mem_leaders.1 hleads).1
  -- the greatest of the whole are leaders of the part, so not enough of them are above `m`
  have hkeys : keysAbove key t m < limit := by
    by_contra hmany
    have htop : limit ≤ ((unionTop key limit t).filter (m < ·)).card :=
      le_card_greatest_above (by rw [card_newest_above]; omega)
    have hcard : ((unionTop key limit t).filter (m < ·)).card ≤
        ((leaders key s).filter (m < ·)).card :=
      card_above_le fun x hx _ => (mem_greatest.1 (mem_merged hapart hsub hx (hall hx))).1
    omega
  have hnew : m ∈ newest key s := by
    by_contra hold
    have hmany := hapart m ((comesBack_of_leader hleads hold).mono hsub)
    omega
  obtain ⟨n, hn, hkey, hle⟩ := exists_newest key (hsub hms)
  have hntop : n ∈ unionTop key limit t :=
    mem_unionTop.2 ⟨hn, (keysAbove_anti hle).trans_lt hkeys⟩
  obtain rfl : n = m := le_antisymm ((mem_newest.1 hnew).2 n (hall hntop) hkey) hle
  exact hntop

theorem merged_self (hapart : Apart key limit s) : merged key limit s = unionTop key limit s :=
  merged_eq hapart subset_rfl fun _ hg => (mem_newest.1 (mem_unionTop.1 hg).1).1

/-- **The items are apart if and only if their merge has no key twice.** -/
theorem apart_iff : Apart key limit s ↔ Set.InjOn key (merged key limit s) := by
  constructor
  · intro hapart
    rw [merged_self hapart]
    exact key_injOn_newest.mono fun g hg => (mem_unionTop.1 hg).1
  · intro hinj g hback
    by_contra hfew
    obtain ⟨hg, e, he, f, hf, hgf, hfe, hkey, hne⟩ := hback
    -- the greatest leader that is not the newest of its key, of those with few keys above
    obtain ⟨b, hb, hgb, hbkey, hsame⟩ := exists_leader key hg
    have hbf : b < f := by
      by_contra hle
      exact hne (hsame f hf hgf.le (not_lt.1 hle))
    have hbold : b ∉ newest key s := fun hnewest =>
      absurd (hbf.trans hfe) ((mem_newest.1 hnewest).2 e he (hkey.trans hbkey.symm)).not_gt
    have hnonempty : ((leaders key s).filter fun x => x ∉ newest key s ∧
        keysAbove key s x < limit).Nonempty :=
      ⟨b, Finset.mem_filter.2 ⟨hb, hbold, (keysAbove_anti hgb).trans_lt (not_le.1 hfew)⟩⟩
    obtain ⟨top, htop, hgreatest⟩ := Finset.exists_max_image _ id hnonempty
    obtain ⟨hleads, hold, hkeys⟩ := Finset.mem_filter.1 htop
    have habove : ((leaders key s).filter (top < ·)).card ≤
        ((newest key s).filter (top < ·)).card := by
      apply card_above_le
      intro x hx hlt
      by_contra hxold
      exact absurd hlt (hgreatest x (Finset.mem_filter.2
        ⟨hx, hxold, (keysAbove_anti hlt.le).trans_lt hkeys⟩)).not_gt
    have hcount : ((leaders key s).filter (top < ·)).card < limit :=
      habove.trans_lt (by rwa [card_newest_above])
    -- so it is kept, and so is the newest of its key
    have htopkept : top ∈ merged key limit s := mem_greatest.2 ⟨hleads, hcount⟩
    obtain ⟨n, hn, hnkey, hle⟩ := exists_newest key (mem_leaders.1 hleads).1
    have hnkept : n ∈ merged key limit s :=
      mem_greatest.2 ⟨newest_subset_leaders hn, (card_above_anti hle).trans_lt hcount⟩
    exact hold (hinj hnkept htopkept hnkey ▸ hn)

/-- **Merging one after the other.** If the union of all is apart, what is kept in the end are the
greatest of it, whatever the order. -/
theorem foldl_merged (hapart : Apart key limit t) {parts : List (Finset α)} (hne : parts ≠ [])
    (hs : s ⊆ t) (hparts : ∀ part ∈ parts, part ⊆ t)
    (hall : ∀ g ∈ unionTop key limit t, g ∈ s ∨ ∃ part ∈ parts, g ∈ part) :
    parts.foldl (fun kept part => merged key limit (kept ∪ part)) s = unionTop key limit t := by
  induction parts generalizing s with
  | nil => exact absurd rfl hne
  | cons part rest ih =>
    have hsub : s ∪ part ⊆ t := Finset.union_subset hs (hparts part List.mem_cons_self)
    rw [List.foldl_cons]
    cases rest with
    | nil =>
      refine merged_eq hapart hsub fun g hg => ?_
      rcases hall g hg with hgs | ⟨q, hq, hgq⟩
      · exact Finset.mem_union_left _ hgs
      · obtain rfl := List.mem_singleton.1 hq
        exact Finset.mem_union_right _ hgq
    | cons next rest =>
      have hkept : merged key limit (s ∪ part) ⊆ t := merged_subset.trans hsub
      refine ih (by simp) hkept (fun q hq => hparts q (List.mem_cons_of_mem _ hq)) fun g hg => ?_
      by_cases hgs : g ∈ s ∪ part
      · exact .inl (mem_merged hapart hsub hg hgs)
      · rcases hall g hg with hmem | ⟨q, hq, hgq⟩
        · exact absurd (Finset.mem_union_left _ hmem) hgs
        · rcases List.mem_cons.1 hq with rfl | hq
          · exact absurd (Finset.mem_union_right _ hgq) hgs
          · exact .inr ⟨q, hq, hgq⟩

end TopUnion
