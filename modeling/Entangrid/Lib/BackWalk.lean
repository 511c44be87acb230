import Entangrid.Lib.HashChain
import Mathlib.Data.List.Perm.Subperm
import Mathlib.Logic.Relation

/-!
# Walking back along parent links

`find` looks up the item under a key, and every item names the key of its parent. The walk collects
the item under its key, goes on from the parent and stops at the root. It keeps the keys it has
visited and gives up when it comes to one of them again, or to a key with no item. The links may form
any graph.

* `Path`: the items from the root to a key. There is at most one path (`Path.unique`), and no key that
  it passes leads back to itself (`Path.acyclic`).
* `Returns`: the rounds of the loop, and what it returns. `returns_of_fuel`: it stops within as many
  rounds as there are keys, and fuel for one round more gives what it returns.
* `walk_eq_some_iff`: the walk returns the path to its key, if there is one.
-/

namespace BackWalk

open Relation HashChain

variable {κ β : Type*}

section
variable (find : κ → Option β) (parent : β → κ) (root : κ)

/-- The walk, with the keys it has visited and the items it has collected. -/
def walk [DecidableEq κ] : Nat → κ → List κ → List β → Option (List β)
  | 0, _, _, _ => none
  | fuel + 1, k, visited, acc =>
    if k = root then some acc
    else if k ∈ visited then none
    else (find k).bind fun b => walk fuel (parent b) (k :: visited) (b :: acc)

/-- The rounds of the loop from a key: how many there are, and what it returns. -/
inductive Returns : κ → List κ → List β → Nat → Option (List β) → Prop
  | atRoot {visited acc} : Returns root visited acc 0 (some acc)
  | again {k visited acc} : k ≠ root → k ∈ visited → Returns k visited acc 0 none
  | missing {k visited acc} : k ≠ root → k ∉ visited → find k = none →
    Returns k visited acc 0 none
  | next {k visited acc b rounds result} : k ≠ root → k ∉ visited → find k = some b →
    Returns (parent b) (k :: visited) (b :: acc) rounds result →
    Returns k visited acc (rounds + 1) result

/-- The items from the root to a key. -/
inductive Path : κ → List β → Prop
  | root : Path root []
  | snoc {k b front} : k ≠ root → find k = some b → Path (parent b) front → Path k (front ++ [b])

/-- The item under `k` names the parent `p`. -/
def Links (k p : κ) : Prop := k ≠ root ∧ ∃ b, find k = some b ∧ parent b = p

end

variable {find : κ → Option β} {parent : β → κ} {root : κ} {k p : κ} {xs ys : List β}

/-! ## Paths -/

namespace Path

theorem nil_of_root (h : Path find parent root root xs) : xs = [] := by
  cases h with
  | root => rfl
  | snoc hne => exact absurd rfl hne

/-- **There is one path to a key.** -/
theorem unique (hx : Path find parent root k xs) (hy : Path find parent root k ys) : xs = ys := by
  induction hx generalizing ys with
  | root => exact hy.nil_of_root.symm
  | snoc hne hfind _ ih =>
    cases hy with
    | root => exact absurd rfl hne
    | snoc _ hfind' hy =>
      obtain rfl := Option.some.inj (hfind.symm.trans hfind')
      rw [ih hy]

/-- The path to a key is the path to the parent of its item, and the item. -/
theorem of_find (h : Path find parent root k xs) (hne : k ≠ root) {b : β} (hfind : find k = some b) :
    ∃ front, xs = front ++ [b] ∧ Path find parent root (parent b) front := by
  cases h with
  | root => exact absurd rfl hne
  | snoc _ hfind' hfront =>
    obtain rfl := Option.some.inj (hfind.symm.trans hfind')
    exact ⟨_, rfl, hfront⟩

theorem of_links (h : Path find parent root k xs) (hlinks : Links find parent root k p) :
    ∃ front b, xs = front ++ [b] ∧ Path find parent root p front := by
  obtain ⟨hne, b, hfind, rfl⟩ := hlinks
  obtain ⟨front, hxs, hfront⟩ := h.of_find hne hfind
  exact ⟨front, b, hxs, hfront⟩

theorem of_reaches (h : Path find parent root k xs)
    (hreaches : ReflTransGen (Links find parent root) k p) :
    ∃ front, Path find parent root p front ∧ front <+: xs := by
  induction hreaches with
  | refl => exact ⟨xs, h, List.prefix_rfl⟩
  | tail _ hlinks ih =>
    obtain ⟨front, hfront, hbegins⟩ := ih
    obtain ⟨front', b, rfl, hfront'⟩ := hfront.of_links hlinks
    exact ⟨front', hfront', (List.prefix_append _ _).trans hbegins⟩

/-- **Nothing on a path leads back to itself.** -/
theorem acyclic (h : Path find parent root k xs) : ¬TransGen (Links find parent root) k k := by
  intro hcycle
  obtain ⟨p, hlinks, hback⟩ := TransGen.head'_iff.1 hcycle
  obtain ⟨front, b, rfl, hfront⟩ := h.of_links hlinks
  obtain ⟨front', hfront', hbegins⟩ := hfront.of_reaches hback
  rw [hfront'.unique h] at hbegins
  have hlength := hbegins.length_le
  rw [List.length_append, List.length_singleton] at hlength
  omega

/-- A key that a path passes is the root or has an item. -/
theorem found (h : Path find parent root k xs) : k = root ∨ (find k).isSome := by
  cases h with
  | root => exact .inl rfl
  | snoc _ hfind => exact .inr (by simp [hfind])

section
variable {key : β → κ} (hkey : ∀ k b, find k = some b → key b = k)
include hkey

theorem tipFrom_eq (h : Path find parent root k xs) : tipFrom key root xs = k := by
  cases h with
  | root => rfl
  | snoc _ hfind => simp [hkey _ _ hfind]

theorem mem (h : Path find parent root k xs) {b : β} (hb : b ∈ xs) :
    key b ≠ root ∧ find (key b) = some b ∧ ReflTransGen (Links find parent root) k (key b) := by
  induction h with
  | root => cases hb
  | snoc hne hfind hfront ih =>
    rcases List.mem_append.1 hb with hb | hb
    · obtain ⟨hne', hfind', hreaches⟩ := ih hb
      exact ⟨hne', hfind', .head ⟨hne, _, hfind, rfl⟩ hreaches⟩
    · obtain rfl := List.mem_singleton.1 hb
      obtain rfl := hkey _ _ hfind
      exact ⟨hne, hfind, .refl⟩

theorem nodup (h : Path find parent root k xs) : (xs.map key).Nodup := by
  induction h with
  | root => exact List.nodup_nil
  | snoc hne hfind hfront ih =>
    rw [List.map_append, List.nodup_append]
    refine ⟨ih, by simp, fun j hj j' hj' heq => ?_⟩
    obtain ⟨c, hc, rfl⟩ := List.mem_map.1 hj
    obtain rfl := List.mem_singleton.1 hj'
    rw [hkey _ _ hfind] at heq
    have hreaches := (hfront.mem hkey hc).2.2
    rw [heq] at hreaches
    exact (snoc hne hfind hfront).acyclic (TransGen.head' ⟨hne, _, hfind, rfl⟩ hreaches)

end

/-- A linked list whose items are found under their keys is a path. -/
theorem of_linkedFrom {key : β → κ} (hlinked : LinkedFrom key parent root xs)
    (hfound : ∀ b ∈ xs, key b ≠ root ∧ find (key b) = some b) :
    Path find parent root (tipFrom key root xs) xs := by
  induction xs using List.reverseRecOn with
  | nil => exact .root
  | append_singleton front b ih =>
    obtain ⟨hfront, hparent, -⟩ := linkedFrom_append.1 hlinked
    have hpath := ih hfront fun c hc => hfound c (List.mem_append_left _ hc)
    obtain ⟨hne, hfind⟩ := hfound b (by simp)
    rw [tipFrom_append, tipFrom_cons, tipFrom_nil]
    exact .snoc hne hfind (hparent ▸ hpath)

end Path

/-! ## The loop -/

section Loop
variable {visited : List κ} {acc : List β} {rounds : Nat} {result : Option (List β)}

/-- What the loop returns is the path to its key, before what it had collected. -/
theorem Returns.path (h : Returns find parent root k visited acc rounds result) {chain : List β}
    (hresult : result = some chain) : ∃ front, chain = front ++ acc ∧ Path find parent root k front := by
  induction h with
  | atRoot =>
    obtain rfl := Option.some.inj hresult
    exact ⟨[], rfl, .root⟩
  | again | missing => cases hresult
  | next hne _ hfind _ ih =>
    obtain ⟨front, rfl, hfront⟩ := ih hresult
    exact ⟨front ++ [_], by simp, .snoc hne hfind hfront⟩

/-- If there is a path and every key visited led to `k`, the loop returns the path. -/
theorem Returns.eq_of_path (h : Returns find parent root k visited acc rounds result)
    (hpath : Path find parent root k xs)
    (hvisited : ∀ v ∈ visited, TransGen (Links find parent root) v k) :
    result = some (xs ++ acc) := by
  induction h generalizing xs with
  | atRoot => rw [hpath.nil_of_root, List.nil_append]
  | again _ hmem => exact absurd (hvisited _ hmem) hpath.acyclic
  | missing hne _ hnone => simpa [hne, hnone] using hpath.found
  | next hne _ hfind _ ih =>
    obtain ⟨front, rfl, hfront⟩ := hpath.of_find hne hfind
    rw [List.append_assoc]
    refine ih hfront fun v hv => ?_
    rcases List.mem_cons.1 hv with rfl | hv
    · exact .single ⟨hne, _, hfind, rfl⟩
    · exact (hvisited v hv).tail ⟨hne, _, hfind, rfl⟩

/-- If it returns nothing, it has come to a key that leads back to itself or to one with no item. -/
theorem Returns.none_cases (h : Returns find parent root k visited acc rounds result)
    (hresult : result = none) (hvisited : ∀ v ∈ visited, TransGen (Links find parent root) v k) :
    ∃ p, ReflTransGen (Links find parent root) k p ∧
      (TransGen (Links find parent root) p p ∨ p ≠ root ∧ find p = none) := by
  induction h with
  | atRoot => cases hresult
  | again _ hmem => exact ⟨_, .refl, .inl (hvisited _ hmem)⟩
  | missing hne _ hnone => exact ⟨_, .refl, .inr ⟨hne, hnone⟩⟩
  | next hne _ hfind _ ih =>
    obtain ⟨p, hreaches, hp⟩ := ih hresult fun v hv => by
      rcases List.mem_cons.1 hv with rfl | hv
      · exact .single ⟨hne, _, hfind, rfl⟩
      · exact (hvisited v hv).tail ⟨hne, _, hfind, rfl⟩
    exact ⟨p, .head ⟨hne, _, hfind, rfl⟩ hreaches, hp⟩

variable [DecidableEq κ]

variable (parent root k visited acc) in
/-- **The loop stops.** It has at most a round for every key it has not visited, and with fuel for one
round more the walk is what it returns. -/
theorem returns_of_fuel {keys : List κ} (hkeys : ∀ k b, find k = some b → k ∈ keys)
    (hnodup : visited.Nodup) (hsub : visited ⊆ keys) (fuel : Nat)
    (hfuel : keys.length < fuel + visited.length) :
    ∃ rounds, rounds + visited.length ≤ keys.length ∧
      Returns find parent root k visited acc rounds
        (walk find parent root fuel k visited acc) := by
  have hlength := (List.subperm_of_subset hnodup hsub).length_le
  induction fuel generalizing k visited acc with
  | zero => omega
  | succ fuel ih =>
    unfold walk
    by_cases hroot : k = root
    · subst hroot
      rw [if_pos rfl]
      exact ⟨0, by omega, .atRoot⟩
    · rw [if_neg hroot]
      by_cases hvisited : k ∈ visited
      · rw [if_pos hvisited]
        exact ⟨0, by omega, .again hroot hvisited⟩
      · rw [if_neg hvisited]
        cases hfind : find k with
        | none => exact ⟨0, by omega, .missing hroot hvisited hfind⟩
        | some b =>
          have hnodup' : (k :: visited).Nodup := List.nodup_cons.2 ⟨hvisited, hnodup⟩
          have hsub' : k :: visited ⊆ keys := List.cons_subset.2 ⟨hkeys k b hfind, hsub⟩
          have hlength' := (List.subperm_of_subset hnodup' hsub').length_le
          obtain ⟨rounds, hrounds, hreturns⟩ := ih (parent b) (k :: visited) (b :: acc)
            hnodup' hsub' (by rw [List.length_cons]; omega) hlength'
          rw [List.length_cons] at hrounds
          exact ⟨rounds + 1, by omega, .next hroot hvisited hfind hreturns⟩

/-- **The walk returns the path to its key, if there is one.** -/
theorem walk_eq_some_iff {keys : List κ} (hkeys : ∀ k b, find k = some b → k ∈ keys) {fuel : Nat}
    (hfuel : keys.length < fuel) :
    walk find parent root fuel k [] [] = some xs ↔ Path find parent root k xs := by
  obtain ⟨rounds, -, hreturns⟩ := returns_of_fuel parent root k [] [] hkeys List.nodup_nil
    (List.nil_subset _) fuel hfuel
  constructor
  · intro h
    obtain ⟨front, hxs, hfront⟩ := hreturns.path h
    rw [List.append_nil] at hxs
    exact hxs ▸ hfront
  · intro h
    have heq := hreturns.eq_of_path h fun v hv => absurd hv List.not_mem_nil
    rwa [List.append_nil] at heq

/-- **There is no path exactly where the links go round or break off.** -/
theorem not_exists_path_iff {keys : List κ} (hkeys : ∀ k b, find k = some b → k ∈ keys) :
    (¬∃ xs, Path find parent root k xs) ↔ ∃ p, ReflTransGen (Links find parent root) k p ∧
      (TransGen (Links find parent root) p p ∨ p ≠ root ∧ find p = none) := by
  constructor
  · intro hpath
    obtain ⟨rounds, -, hreturns⟩ := returns_of_fuel parent root k [] [] hkeys List.nodup_nil
      (List.nil_subset _) (keys.length + 1) (by simp)
    refine hreturns.none_cases ?_ fun v hv => absurd hv List.not_mem_nil
    cases hwalk : walk find parent root (keys.length + 1) k [] [] with
    | none => rfl
    | some xs =>
      exact absurd ⟨xs, (walk_eq_some_iff hkeys (Nat.lt_succ_self _)).1 hwalk⟩ hpath
  · rintro ⟨p, hreaches, hp⟩ ⟨xs, hpath⟩
    obtain ⟨front, hfront, -⟩ := hpath.of_reaches hreaches
    rcases hp with hcycle | ⟨hne, hnone⟩
    · exact hfront.acyclic hcycle
    · simpa [hne, hnone] using hfront.found

end Loop

end BackWalk
