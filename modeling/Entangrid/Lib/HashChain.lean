import Mathlib.Data.List.Induction

/-!
# Hash chains

Lists of blocks in which every block names the hash of the one before it. A block is anything with a
hash and a parent's hash.

* `LinkedFrom start chain`, `tipFrom start chain`: the chain starts on `start`, and the hash it ends
  with.
* `map_hash_eq_of_length_eq`: the tip determines the hashes of a chain of a given length, where a hash
  determines the parent.
* `nodup_of_linkedFrom`: where a hash determines the parent and no block hashes to the start, a chain
  has no hash twice.
* `map_hash_eq_of_linkedFrom`: under the same conditions the tip determines the hashes of the chain.
-/

namespace HashChain

variable {β H : Type*} (hash parent : β → H)

def LinkedFrom (start : H) : List β → Prop
  | [] => True
  | b :: rest => parent b = start ∧ LinkedFrom (hash b) rest

def tipFrom (start : H) : List β → H
  | [] => start
  | b :: rest => tipFrom (hash b) rest

variable {hash parent} {start : H}

@[simp] theorem linkedFrom_nil : LinkedFrom hash parent start [] := trivial

@[simp] theorem linkedFrom_cons {b : β} {rest : List β} :
    LinkedFrom hash parent start (b :: rest) ↔
      parent b = start ∧ LinkedFrom hash parent (hash b) rest := Iff.rfl

@[simp] theorem tipFrom_nil : tipFrom hash start [] = start := rfl

@[simp] theorem tipFrom_cons {b : β} {rest : List β} :
    tipFrom hash start (b :: rest) = tipFrom hash (hash b) rest := rfl

@[simp] theorem tipFrom_append {xs ys : List β} :
    tipFrom hash start (xs ++ ys) = tipFrom hash (tipFrom hash start xs) ys := by
  induction xs generalizing start with
  | nil => rfl
  | cons b xs ih => simp [ih]

@[simp] theorem linkedFrom_append {xs ys : List β} :
    LinkedFrom hash parent start (xs ++ ys) ↔
      LinkedFrom hash parent start xs ∧ LinkedFrom hash parent (tipFrom hash start xs) ys := by
  induction xs generalizing start with
  | nil => simp
  | cons b xs ih => simp [ih, and_assoc]

/-- The tip is the hash of the last block, if there is one. -/
theorem getLast?_map_getD (chain : List β) :
    (chain.getLast?.map hash).getD start = tipFrom hash start chain := by
  induction chain using List.reverseRecOn with
  | nil => rfl
  | append_singleton front tip => simp

/-- The tip is the start or one of the hashes. -/
theorem tipFrom_mem {chain : List β} : tipFrom hash start chain ∈ start :: chain.map hash := by
  induction chain generalizing start with
  | nil => simp
  | cons b rest ih => exact List.mem_cons_of_mem _ ih

theorem tipFrom_eq_getLast {chain : List β} (h : chain ≠ []) :
    tipFrom hash start chain = hash (chain.getLast h) := by
  induction chain generalizing start with
  | nil => exact absurd rfl h
  | cons b rest ih =>
    cases rest with
    | nil => rfl
    | cons c rest =>
      have htip : tipFrom hash (hash b) (c :: rest) = _ := ih (by simp)
      simpa using htip

/-- The tip is a matter of the hashes. -/
theorem tipFrom_congr {xs ys : List β} (h : xs.map hash = ys.map hash) :
    tipFrom hash start xs = tipFrom hash start ys := by
  induction xs generalizing start ys with
  | nil =>
    obtain rfl : ys = [] := List.map_eq_nil_iff.1 h.symm
    rfl
  | cons b xs ih =>
    cases ys with
    | nil => cases h
    | cons c ys =>
      obtain ⟨hbc, hrest⟩ := List.cons.inj h
      show tipFrom hash (hash b) xs = tipFrom hash (hash c) ys
      rw [hbc]
      exact ih hrest

/-- The tip of a prefix is the hash of its last block. -/
theorem tipFrom_take_succ {chain : List β} {i : Nat} {b : β} (h : chain[i]? = some b) :
    tipFrom hash start (chain.take (i + 1)) = hash b := by
  rw [List.take_add_one, h, tipFrom_append]
  rfl

/-- Where no hash comes twice and none is the start, no shorter prefix has the tip of the chain. -/
theorem length_le_of_tipFrom_take {chain : List β} (hnodup : (chain.map hash).Nodup)
    (hstart : ∀ b ∈ chain, hash b ≠ start) {k : Nat}
    (h : tipFrom hash start (chain.take k) = tipFrom hash start chain) : chain.length ≤ k := by
  by_contra hlt
  have hdrop : chain.drop k ≠ [] := by simpa using hlt
  have hrest : tipFrom hash (tipFrom hash start (chain.take k)) (chain.drop k) =
      hash ((chain.drop k).getLast hdrop) := tipFrom_eq_getLast hdrop
  have htip : tipFrom hash start chain = hash ((chain.drop k).getLast hdrop) := by
    rw [← hrest, ← tipFrom_append, List.take_append_drop]
  have hlast : (chain.drop k).getLast hdrop ∈ chain.drop k := List.getLast_mem hdrop
  rw [htip] at h
  by_cases htake : chain.take k = []
  · rw [htake] at h
    exact hstart _ (List.mem_of_mem_drop hlast) h.symm
  · rw [tipFrom_eq_getLast htake] at h
    rw [← List.take_append_drop k chain, List.map_append] at hnodup
    exact (List.nodup_append.1 hnodup).2.2 _ (List.mem_map_of_mem (List.getLast_mem htake)) _
      (List.mem_map_of_mem hlast) h

/-- Of two chains of one length, the tip determines the hashes, wherever they start. -/
theorem map_hash_eq_of_length_eq {xs ys : List β} (hxs : LinkedFrom hash parent start xs)
    (hys : LinkedFrom hash parent start ys) (hlength : xs.length = ys.length)
    (hparent : ∀ b ∈ xs, ∀ c ∈ ys, hash b = hash c → parent b = parent c)
    (htip : tipFrom hash start xs = tipFrom hash start ys) : xs.map hash = ys.map hash := by
  -- from the tip back, as below; the chains end together because they are of one length
  induction xs using List.reverseRecOn generalizing ys with
  | nil =>
    obtain rfl : ys = [] := List.length_eq_zero_iff.1 hlength.symm
    rfl
  | append_singleton xs b ih =>
    rcases ys.eq_nil_or_concat with rfl | ⟨ys, c, rfl⟩
    · exact absurd hlength (by simp)
    · simp only [List.concat_eq_append, tipFrom_append, tipFrom_cons, tipFrom_nil, linkedFrom_append,
        linkedFrom_cons, linkedFrom_nil, and_true, List.length_append] at hxs hys htip hlength
      have hbc := hparent b (by simp) c (by simp) htip
      have hrest := ih hxs.1 hys.1 (Nat.add_right_cancel hlength)
        (fun x hx y hy => hparent x (by simp [hx]) y (by simp [hy]))
        (by rw [← hxs.2, ← hys.2, hbc])
      simp [hrest, htip]

section Unique
variable {S : Set β} (hparent : ∀ b ∈ S, ∀ c ∈ S, hash b = hash c → parent b = parent c)
  (hstart : ∀ b ∈ S, hash b ≠ start)
include hparent hstart

/-- The tip of a chain determines its hashes. -/
theorem map_hash_eq_of_linkedFrom {xs ys : List β} (hxs : LinkedFrom hash parent start xs)
    (hys : LinkedFrom hash parent start ys) (hxS : ∀ b ∈ xs, b ∈ S) (hyS : ∀ b ∈ ys, b ∈ S)
    (htip : tipFrom hash start xs = tipFrom hash start ys) : xs.map hash = ys.map hash := by
  -- from the tip back: equal hashes name equal parents, which are the tips of the shorter chains
  induction xs using List.reverseRecOn generalizing ys with
  | nil =>
    rcases ys.eq_nil_or_concat with rfl | ⟨ys, c, rfl⟩
    · rfl
    · simp only [List.concat_eq_append, tipFrom_append, tipFrom_cons, tipFrom_nil] at htip
      exact absurd htip.symm (hstart c (hyS c (by simp)))
  | append_singleton xs b ih =>
    rcases ys.eq_nil_or_concat with rfl | ⟨ys, c, rfl⟩
    · simp only [tipFrom_append, tipFrom_cons, tipFrom_nil] at htip
      exact absurd htip (hstart b (hxS b (by simp)))
    · simp only [List.concat_eq_append, tipFrom_append, tipFrom_cons, tipFrom_nil,
        linkedFrom_append, linkedFrom_cons, linkedFrom_nil, and_true] at hxs hys htip
      have hbc := hparent b (hxS b (by simp)) c (hyS c (by simp)) htip
      have := ih hxs.1 hys.1 (fun x hx => hxS x (by simp [hx])) (fun y hy => hyS y (by simp [hy]))
        (by rw [← hxs.2, ← hys.2, hbc])
      simp [this, htip]

/-- A chain has no hash twice. -/
theorem nodup_of_linkedFrom {chain : List β} (h : LinkedFrom hash parent start chain)
    (hS : ∀ b ∈ chain, b ∈ S) : (chain.map hash).Nodup := by
  induction chain using List.reverseRecOn with
  | nil => simp
  | append_singleton xs b ih =>
    rw [List.map_append, List.map_cons, List.map_nil, List.nodup_append]
    refine ⟨ih (linkedFrom_append.1 h).1 fun x hx => hS x (by simp [hx]), by simp, ?_⟩
    rintro x hx y hy rfl
    obtain ⟨c, hc, hcx⟩ := List.mem_map.1 hx
    obtain rfl : x = hash b := by simpa using hy
    -- the prefix that ends in `c` has the tip of the whole chain, and is shorter
    obtain ⟨pre, post, rfl⟩ := List.append_of_mem hc
    have hpre : LinkedFrom hash parent start (pre ++ [c]) := by
      simp only [linkedFrom_append, linkedFrom_cons] at h ⊢
      exact ⟨h.1.1, h.1.2.1, trivial⟩
    have := map_hash_eq_of_linkedFrom hparent hstart hpre h
      (fun x hx => hS x (by simp at hx ⊢; tauto)) hS (by simpa using hcx)
    have := congrArg List.length this
    simp at this

end Unique

end HashChain
