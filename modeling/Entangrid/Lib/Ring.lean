import Mathlib.Data.List.Nodup
import Mathlib.Data.List.Perm.Basic
import Mathlib.Data.Nat.ModEq

/-!
# Successors on a ring

A list read as a ring: the `k` successors of a position are the elements that follow it, going around.
On a ring without repetitions and with more than `k` elements they are distinct and do not contain the
element at the position, and every element is a successor of exactly `k` positions.
-/

namespace Ring

variable {α : Type*}

/-- The `k` elements after position `i`. -/
def successors (ring : List α) (d : α) (k i : Nat) : List α :=
  (List.range k).map fun offset => ring.getD ((i + (offset + 1)) % ring.length) d

/-- The position `k` steps after which is `j`. -/
def back (n j k : Nat) : Nat := (j + (n - k)) % n

section
variable {n i j k k' : Nat}

theorem back_lt (hj : j < n) : back n j k < n := Nat.mod_lt _ (by omega)

/-- Going back and forth. -/
theorem back_add (hj : j < n) (hk : k ≤ n) : (back n j k + k) % n = j := by
  unfold back
  rw [Nat.mod_add_mod, show j + (n - k) + k = j + n by omega, Nat.add_mod_right]
  exact Nat.mod_eq_of_lt hj

theorem add_back (hi : i < n) (hk : k ≤ n) : back n ((i + k) % n) k = i := by
  unfold back
  rw [Nat.mod_add_mod, show i + k + (n - k) = i + n by omega, Nat.add_mod_right]
  exact Nat.mod_eq_of_lt hi

/-- Fewer than `n` steps lead to different places. -/
theorem add_mod_inj (hk : k < n) (hk' : k' < n) (h : (i + k) % n = (i + k') % n) : k = k' := by
  have hcancel : k % n = k' % n := Nat.ModEq.add_left_cancel' i h
  rwa [Nat.mod_eq_of_lt hk, Nat.mod_eq_of_lt hk'] at hcancel

theorem back_inj (hj : j < n) (hk : k < n) (hk' : k' < n) (h : back n j k = back n j k') :
    k = k' := by
  apply add_mod_inj hk hk' (i := back n j k)
  rw [back_add hj (Nat.le_of_lt hk), h, back_add hj (Nat.le_of_lt hk')]

end

variable {ring : List α} {d : α} {k i j : Nat}

@[simp] theorem length_successors : (successors ring d k i).length = k := by
  simp [successors]

/-- An element of the ring is a successor when so many steps lead to it. -/
theorem getElem_mem_successors (hnodup : ring.Nodup) (hj : j < ring.length) :
    ring[j] ∈ successors ring d k i ↔ ∃ offset < k, (i + (offset + 1)) % ring.length = j := by
  have hpos : 0 < ring.length := by omega
  have hget (m : Nat) (hm : m % ring.length < ring.length) :
      ring.getD (m % ring.length) d = ring[m % ring.length] := by
    simp [List.getD_eq_getElem?_getD, List.getElem?_eq_getElem hm]
  simp only [successors, List.mem_map, List.mem_range, hget _ (Nat.mod_lt _ hpos)]
  constructor
  · rintro ⟨offset, hoffset, heq⟩
    exact ⟨offset, hoffset, (hnodup.getElem_inj_iff).1 heq⟩
  · rintro ⟨offset, hoffset, rfl⟩
    exact ⟨offset, hoffset, rfl⟩

theorem mem_of_mem_successors (hring : ring ≠ []) {x : α} (h : x ∈ successors ring d k i) :
    x ∈ ring := by
  obtain ⟨offset, -, rfl⟩ := List.mem_map.1 h
  have hlt := Nat.mod_lt (i + (offset + 1)) (List.length_pos_iff.2 hring)
  rw [List.getD_eq_getElem?_getD, List.getElem?_eq_getElem hlt]
  exact List.getElem_mem hlt

/-- The element at a position does not follow it. -/
theorem getElem_notMem_successors (hnodup : ring.Nodup) (hk : k < ring.length)
    (hi : i < ring.length) : ring[i] ∉ successors ring d k i := by
  intro h
  obtain ⟨offset, hoffset, heq⟩ := (getElem_mem_successors hnodup hi).1 h
  have hzero : offset + 1 = 0 := by
    apply add_mod_inj (n := ring.length) (i := i) (by omega) (by omega)
    rw [heq, Nat.add_zero, Nat.mod_eq_of_lt hi]
  omega

theorem nodup_successors (hnodup : ring.Nodup) (hk : k < ring.length) :
    (successors ring d k i).Nodup := by
  have hpos : 0 < ring.length := by omega
  refine List.Nodup.map_on (fun o ho o' ho' h => ?_) List.nodup_range
  have ho := List.mem_range.1 ho
  have ho' := List.mem_range.1 ho'
  have hlt := Nat.mod_lt (i + (o + 1)) hpos
  have hlt' := Nat.mod_lt (i + (o' + 1)) hpos
  simp only [List.getD_eq_getElem?_getD, List.getElem?_eq_getElem hlt,
    List.getElem?_eq_getElem hlt', Option.getD_some] at h
  have hsteps := add_mod_inj (by omega) (by omega) ((hnodup.getElem_inj_iff).1 h)
  omega

/-- **Every element is a successor of `k` positions**: those from which up to `k` steps lead to it. -/
theorem countP_mem_successors [DecidableEq α] (hnodup : ring.Nodup) (hk : k < ring.length)
    (hj : j < ring.length) :
    (List.range ring.length).countP (fun i => decide (ring[j] ∈ successors ring d k i)) = k := by
  have hbacks : ((List.range k).map fun offset => back ring.length j (offset + 1)).Nodup := by
    refine List.Nodup.map_on (fun o ho o' ho' h => ?_) List.nodup_range
    have ho := List.mem_range.1 ho
    have ho' := List.mem_range.1 ho'
    have := back_inj hj (by omega) (by omega) h
    omega
  have hperm : ((List.range ring.length).filter fun i => decide (ring[j] ∈ successors ring d k i)).Perm
      ((List.range k).map fun offset => back ring.length j (offset + 1)) := by
    refine (List.perm_ext_iff_of_nodup (List.nodup_range.filter _) hbacks).2 fun i => ?_
    simp only [List.mem_filter, List.mem_range, decide_eq_true_eq, getElem_mem_successors hnodup hj,
      List.mem_map]
    constructor
    · rintro ⟨hi, offset, hoffset, rfl⟩
      exact ⟨offset, hoffset, add_back hi (by omega)⟩
    · rintro ⟨offset, hoffset, rfl⟩
      exact ⟨back_lt hj, offset, hoffset, back_add hj (by omega)⟩
  rw [List.countP_eq_length_filter, hperm.length_eq, List.length_map, List.length_range]

end Ring
