import Mathlib.Algebra.BigOperators.Group.List.Basic
import Mathlib.Algebra.Order.BigOperators.Group.List
import Mathlib.Data.List.Nodup

/-!
# Values and totals of ordered maps

The values of an extensional ordered map in the order of their keys; their sum, how one insertion
changes it, and the bounds it puts on the entries.

* `values_map_eq_keys`: values that carry their key, read in order, give the keys.
* `getElem?_foldl_insert`: a map filled from a list holds the last value listed for a key.
* `mem_take_values`: the values of the first keys, by the number of keys before them.
* `total_insert`: inserting `v` at `k` adds `v` and takes away what `k` held.
* `getD_add_getD_le_total`: the values at two different keys fit in the total.
-/

section Sorted
variable {α : Type*} {r : α → α → Prop} [DecidableRel r]

/-- The first entries of a sorted list are those with few entries before them. -/
theorem mem_take_iff_countP_lt {xs : List α} (hsorted : xs.Pairwise r) (hirrefl : ∀ x, ¬r x x)
    (hasymm : ∀ x y, r x y → ¬r y x) {x : α} {m : Nat} :
    x ∈ xs.take m ↔ x ∈ xs ∧ xs.countP (fun y => r y x) < m := by
  induction xs generalizing m with
  | nil => simp
  | cons y xs ih =>
    obtain ⟨hhead, hsorted⟩ := List.pairwise_cons.1 hsorted
    cases m with
    | zero => simp
    | succ m =>
      rw [List.take_succ_cons, List.mem_cons, List.mem_cons, ih hsorted, List.countP_cons]
      by_cases hx : x ∈ xs
      · have hne : x ≠ y := by
          rintro rfl
          exact hirrefl x (hhead x hx)
        simp [hx, hne, hhead x hx]
      · by_cases hxy : x = y
        · subst hxy
          have hnone : xs.countP (fun y => r y x) = 0 :=
            List.countP_eq_zero.2 fun z hz => by simpa using hasymm x z (hhead z hz)
          simp [hnone, hirrefl]
        · simp [hx, hxy]

end Sorted

namespace Std.ExtTreeMap

section Values

variable {α β γ : Type*} [Ord α] [Std.TransOrd α] [Std.LawfulEqOrd α] {m m' : ExtTreeMap α β compare}

theorem mem_values {v : β} : v ∈ m.toList.map (·.2) ↔ ∃ k : α, m[k]? = some v := by
  simp [mem_toList_iff_getElem?_eq_some]

theorem values_map_eq_keys {f : β → α} (h : ∀ (k : α) (v : β), m[k]? = some v → f v = k) :
    (m.toList.map (·.2)).map f = m.keys := by
  rw [← map_fst_toList_eq_keys, List.map_map]
  refine List.map_congr_left fun e he => ?_
  exact h e.1 e.2 (mem_toList_iff_getElem?_eq_some.1 he)

/-- Maps whose entries look alike under `f` list their values alike. -/
theorem values_map_congr {f : β → γ} (h : ∀ k : α, m[k]?.map f = m'[k]?.map f) :
    (m.toList.map (·.2)).map f = (m'.toList.map (·.2)).map f := by
  have hmap : m.map (fun _ v => f v) = m'.map fun _ v => f v :=
    ext_getElem? fun k => by rw [getElem?_map, getElem?_map, h k]
  have hlist := congrArg (fun t => t.toList.map (·.2)) hmap
  simpa [toList_map, Function.comp_def] using hlist

/-- The values of the first keys are those with few keys before theirs. -/
theorem mem_take_values {v : β} {k : Nat} : v ∈ (m.toList.map (·.2)).take k ↔
    ∃ key : α, m[key]? = some v ∧ m.toList.countP (fun e => compare e.1 key = .lt) < k := by
  have hirrefl : ∀ e : α × β, ¬compare e.1 e.1 = .lt := fun e h => by
    have hself : compare e.1 e.1 = .eq := ReflCmp.compare_self
    rw [h] at hself
    cases hself
  have hasymm : ∀ e e' : α × β, compare e.1 e'.1 = .lt → ¬compare e'.1 e.1 = .lt :=
    fun e e' h h' => by
      have hswap : compare e.1 e'.1 = (compare e'.1 e.1).swap := OrientedCmp.eq_swap
      rw [h, h'] at hswap
      cases hswap
  simp only [← List.map_take, List.mem_map, Prod.exists, exists_eq_right,
    mem_take_iff_countP_lt m.ordered_keys_toList hirrefl hasymm, mem_toList_iff_getElem?_eq_some]

end Values

section Fold

variable {α β γ : Type*} [Ord α] [Std.TransOrd α] [Std.LawfulEqOrd α] [DecidableEq α]
variable {xs : List γ} {key : γ → α} {val : γ → β} {m : ExtTreeMap α β compare}

/-- A map filled from a list holds the last value listed for a key. -/
theorem getElem?_foldl_insert (k : α) :
    (xs.foldl (fun m x => m.insert (key x) (val x)) m)[k]? =
      ((xs.reverse.find? (key · = k)).map val).or m[k]? := by
  induction xs generalizing m with
  | nil => simp
  | cons x xs ih =>
    rw [List.foldl_cons, ih, List.reverse_cons, List.find?_append, getElem?_insert]
    cases xs.reverse.find? (key · = k) with
    | some y => simp
    | none => by_cases hk : key x = k <;> simp [hk]

theorem getElem?_foldl_insert_of_nodup (hkeys : (xs.map key).Nodup) {x : γ} (hx : x ∈ xs) :
    (xs.foldl (fun m x => m.insert (key x) (val x)) m)[key x]? = some (val x) := by
  rw [getElem?_foldl_insert]
  cases hfind : xs.reverse.find? (key · = key x) with
  | none =>
    have hnot := List.find?_eq_none.1 hfind x (List.mem_reverse.2 hx)
    simp at hnot
  | some y =>
    have hy : y ∈ xs := List.mem_reverse.1 (List.mem_of_find?_eq_some hfind)
    have hkey : key y = key x := by simpa using List.find?_some hfind
    rw [List.inj_on_of_nodup_map hkeys hy hx hkey, Option.map_some, Option.some_or]

theorem getElem?_foldl_insert_of_notMem {k : α} (hk : k ∉ xs.map key) :
    (xs.foldl (fun m x => m.insert (key x) (val x)) m)[k]? = m[k]? := by
  have hfind : xs.reverse.find? (key · = k) = none := by
    rw [List.find?_eq_none]
    intro x hx hkey
    exact hk (List.mem_map.2 ⟨x, List.mem_reverse.1 hx, by simpa using hkey⟩)
  rw [getElem?_foldl_insert, hfind, Option.map_none, Option.none_or]

end Fold

section Perm

variable {α β : Type*} [Ord α] [Std.TransOrd α]

theorem nodup_toList (m : ExtTreeMap α β compare) : m.toList.Nodup := by
  refine m.distinct_keys_toList.imp ?_
  rintro a _ h rfl
  exact h Std.ReflCmp.compare_self

variable [Std.LawfulEqOrd α] [DecidableEq α]

/-- The entries of a map: the one at `k`, if there is one, and the others. -/
theorem toList_perm_of_getElem?_eq_some {m : ExtTreeMap α β compare} {k : α} {v : β}
    (h : m[k]? = some v) :
    m.toList.Perm ((k, v) :: m.toList.filter (fun e => e.1 ≠ k)) := by
  refine (List.perm_ext_iff_of_nodup m.nodup_toList ?_).2 ?_
  · exact List.nodup_cons.2 ⟨by simp, m.nodup_toList.filter _⟩
  · rintro ⟨k', v'⟩
    by_cases hk : k' = k
    · subst hk
      simp [mem_toList_iff_getElem?_eq_some, h, eq_comm]
    · simp [hk]

theorem toList_insert_perm (m : ExtTreeMap α β compare) (k : α) (v : β) :
    (m.insert k v).toList.Perm ((k, v) :: m.toList.filter (fun e => e.1 ≠ k)) := by
  refine (List.perm_ext_iff_of_nodup (nodup_toList _) ?_).2 ?_
  · exact List.nodup_cons.2 ⟨by simp, m.nodup_toList.filter _⟩
  · rintro ⟨k', v'⟩
    by_cases hk : k' = k
    · subst hk
      simp [mem_toList_iff_getElem?_eq_some, eq_comm]
    · simp [mem_toList_iff_getElem?_eq_some, getElem?_insert, hk, Ne.symm hk]

end Perm

/-- The sum of the values. -/
def total {α β : Type*} [Ord α] [Std.TransOrd α] [AddCommMonoid β]
    (m : ExtTreeMap α β compare) : β :=
  (m.toList.map (·.2)).sum

section Total

variable {α β : Type*} [Ord α] [Std.TransOrd α] [Std.LawfulEqOrd α] [DecidableEq α]
variable [AddCommMonoid β]

/-- The total without the entry at `k`. -/
def totalExcept (m : ExtTreeMap α β compare) (k : α) : β :=
  ((m.toList.filter (fun e => e.1 ≠ k)).map (·.2)).sum

theorem total_eq_getD_add (m : ExtTreeMap α β compare) (k : α) :
    m.total = m.getD k 0 + m.totalExcept k := by
  unfold total totalExcept
  rcases h : m[k]? with _ | v
  · have hf : m.toList.filter (fun e => e.1 ≠ k) = m.toList := by
      refine List.filter_eq_self.2 fun e he => ?_
      have := mem_toList_iff_getElem?_eq_some.1 (show (e.1, e.2) ∈ m.toList from he)
      refine decide_eq_true fun hk => ?_
      simp [← hk, this] at h
    rw [hf]
    simp [getD_eq_getD_getElem?, h]
  · rw [(toList_perm_of_getElem?_eq_some h).map (·.2) |>.sum_eq]
    simp [getD_eq_getD_getElem?, h]

theorem total_insert_eq (m : ExtTreeMap α β compare) (k : α) (v : β) :
    (m.insert k v).total = v + m.totalExcept k := by
  unfold total totalExcept
  rw [(m.toList_insert_perm k v).map (·.2) |>.sum_eq]
  simp

/-- Inserting `v` at `k` adds `v` and takes away what `k` held. -/
theorem total_insert (m : ExtTreeMap α β compare) (k : α) (v : β) :
    (m.insert k v).total + m.getD k 0 = m.total + v := by
  rw [total_insert_eq, total_eq_getD_add m k]
  ac_rfl

end Total

section Bounds

variable {α : Type*} [Ord α] [Std.TransOrd α] [Std.LawfulEqOrd α] [DecidableEq α]

theorem getD_le_total (m : ExtTreeMap α Nat compare) (k : α) : m.getD k 0 ≤ m.total := by
  have := total_eq_getD_add m k
  omega

theorem getD_add_getD_le_total (m : ExtTreeMap α Nat compare) {k k' : α} (hk : k ≠ k') :
    m.getD k 0 + m.getD k' 0 ≤ m.total := by
  -- Emptying the entry at `k` leaves the one at `k'`.
  have h1 := m.total_insert k 0
  have h2 := (m.insert k 0).getD_le_total k'
  rw [getD_insert, if_neg (by simpa using hk)] at h2
  omega

end Bounds

end Std.ExtTreeMap
