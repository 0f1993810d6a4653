import Mathlib.Data.List.Basic
import Mathlib.Data.UInt
import Mathlib.Tactic.Common

/-!
# The indices which a loop over a 64-bit counter visits

A loop `for (i = first; i < bound; i++)` visits the half-open interval. A loop with `i <= last`
visits the closed interval, except that for the largest value of the type its condition never
fails: the counter wraps around and the loop does not end. A loop which counts down to the last
index above zero visits the same indices as the closed interval from 1 on, the other way round.
-/

/-- The indices of `for (i = first; i < bound; i++)`. -/
def indicesBelow (first bound : UInt64) : List UInt64 :=
  (List.range' first.toNat (bound.toNat - first.toNat)).map UInt64.ofNat

/-- The indices of `for (i = first; i <= last; i++)`, unless the loop runs for ever. -/
def indicesUpTo (first last : UInt64) : Option (List UInt64) :=
  if last.toNat + 1 = 2 ^ 64 then none
  else some ((List.range' first.toNat (last.toNat + 1 - first.toNat)).map UInt64.ofNat)

/-- The indices of `for (i = last; i > 0; i--)`. -/
def indicesDownFrom (last : UInt64) : List UInt64 :=
  ((List.range' 1 last.toNat).map UInt64.ofNat).reverse

/-- A counter which has not reached the largest value of its type counts up. -/
theorem toNat_add_one_of_lt {i : UInt64} (h : i.toNat + 1 < 2 ^ 64) : (i + 1).toNat = i.toNat + 1 := by
  rw [UInt64.toNat_add, UInt64.toNat_one, Nat.mod_eq_of_lt h]

/-- A counter below some bound counts up. -/
theorem lt_add_one_of_lt {i bound : UInt64} (h : i < bound) : i < i + 1 := by
  have hbound := bound.toNat_lt
  rw [UInt64.lt_iff_toNat_lt] at h ⊢
  rw [toNat_add_one_of_lt (by omega)]
  exact Nat.lt_succ_self _

/-- A counter which counts up does not pass the bound. -/
theorem add_one_le_of_lt {i bound : UInt64} (h : i < bound) : i + 1 ≤ bound := by
  have hbound := bound.toNat_lt
  rw [UInt64.lt_iff_toNat_lt] at h
  rw [UInt64.le_iff_toNat_le, toNat_add_one_of_lt (by omega)]
  exact h

/-- The closed loop ends when its last index is not the largest value of the type. -/
theorem exists_indicesUpTo (first : UInt64) {last : UInt64} (h : last.toNat + 1 < 2 ^ 64) :
    ∃ indices, indicesUpTo first last = some indices :=
  ⟨_, if_neg h.ne⟩

/-- The last index of a closed loop which ends is not the largest value of the type. -/
theorem toNat_last_lt_of_indicesUpTo {first last : UInt64} {indices : List UInt64}
    (h : indicesUpTo first last = some indices) : last.toNat + 1 < 2 ^ 64 := by
  have hbound := last.toNat_lt
  unfold indicesUpTo at h
  split at h
  · simp at h
  · omega

/-- Membership in a range of natural numbers, carried over to the machine type. -/
theorem mem_map_ofNat_range' {start len : ℕ} (h : start + len ≤ 2 ^ 64) (i : UInt64) :
    i ∈ (List.range' start len).map UInt64.ofNat ↔ start ≤ i.toNat ∧ i.toNat < start + len := by
  rw [List.mem_map]
  constructor
  · intro ⟨n, hn, hi⟩
    rw [List.mem_range'_1] at hn
    rw [← hi, UInt64.toNat_ofNat_of_lt' (show n < UInt64.size by simp only [UInt64.size]; omega)]
    exact hn
  · intro hi
    exact ⟨i.toNat, List.mem_range'_1.mpr hi, UInt64.ofNat_toNat⟩

/-- The half-open loop visits exactly the indices from its first one on which are below its bound. -/
theorem mem_indicesBelow {first bound i : UInt64} : i ∈ indicesBelow first bound ↔ first ≤ i ∧ i < bound := by
  have hbound := bound.toNat_lt
  have hfirst := first.toNat_lt
  rw [indicesBelow, mem_map_ofNat_range' (by omega), UInt64.le_iff_toNat_le, UInt64.lt_iff_toNat_lt]
  omega

/-- A run of natural numbers below the size of the type ascends in the machine type, too. -/
theorem pairwise_lt_map_ofNat_range' {start len : ℕ} (h : start + len ≤ 2 ^ 64) :
    ((List.range' start len).map UInt64.ofNat).Pairwise (· < ·) := by
  rw [List.pairwise_map]
  apply List.Pairwise.imp_of_mem _ List.pairwise_lt_range'
  intro m n hm hn hless
  rw [List.mem_range'_1] at hm hn
  rw [UInt64.lt_iff_toNat_lt, UInt64.toNat_ofNat_of_lt' (show m < UInt64.size by simp only [UInt64.size]; omega),
    UInt64.toNat_ofNat_of_lt' (show n < UInt64.size by simp only [UInt64.size]; omega)]
  exact hless

/-- In an ordered list the first element with a property comes before all others with the property. -/
theorem rel_of_find?_of_pairwise {A : Type*} {r : A → A → Prop} {l : List A} (hl : l.Pairwise r) {p : A → Bool}
    {a b : A} (h : l.find? p = some a) (hb : b ∈ l) (hp : p b = true) : a = b ∨ r a b := by
  obtain ⟨-, before, after, rfl, hbefore⟩ := List.find?_eq_some_iff_append.mp h
  rcases List.mem_append.mp hb with hearlier | hlater
  · have hnot := hbefore b hearlier
    rw [hp] at hnot
    exact absurd hnot (by decide)
  · rcases List.mem_cons.mp hlater with rfl | hafter
    · exact Or.inl rfl
    · exact Or.inr ((List.pairwise_cons.mp (List.pairwise_append.mp hl).2.1).1 b hafter)

/-- The half-open loop finds the smallest of its indices with a property. -/
theorem le_of_find?_indicesBelow {first bound k : UInt64} {p : UInt64 → Bool}
    (h : (indicesBelow first bound).find? p = some k) {i : UInt64} (hi : i ∈ indicesBelow first bound)
    (hp : p i = true) : k ≤ i := by
  have hfirst := first.toNat_lt
  have hbound := bound.toNat_lt
  rcases rel_of_find?_of_pairwise (pairwise_lt_map_ofNat_range' (by omega)) h hi hp with rfl | hless
  · exact UInt64.le_refl _
  · exact UInt64.le_of_lt hless

/-- A search by the half-open loop comes to the smallest of its indices with a property, or falls back when
none has it. -/
theorem find_indicesBelow_cases (first bound fallback : UInt64) (p : UInt64 → Bool) :
    (∃ k, ((indicesBelow first bound).find? p).getD fallback = k ∧ k < bound ∧ p k = true ∧
        ∀ i, first ≤ i → i < k → p i = false) ∨
      (((indicesBelow first bound).find? p).getD fallback = fallback ∧
        ∀ i, first ≤ i → i < bound → p i = false) := by
  cases hfound : (indicesBelow first bound).find? p with
  | none =>
    refine Or.inr ⟨rfl, fun i hfirst hi => ?_⟩
    exact Bool.eq_false_iff.mpr (List.find?_eq_none.mp hfound i (mem_indicesBelow.mpr ⟨hfirst, hi⟩))
  | some k =>
    have hk := (mem_indicesBelow.mp (List.mem_of_find?_eq_some hfound)).2
    refine Or.inl ⟨k, rfl, hk, List.find?_some hfound, fun i hfirst hi => ?_⟩
    by_contra hnot
    have hvisited := mem_indicesBelow.mpr ⟨hfirst, UInt64.lt_trans hi hk⟩
    exact UInt64.not_le.mpr hi (le_of_find?_indicesBelow hfound hvisited (Bool.eq_true_of_not_eq_false hnot))

/-- The loop which counts down visits exactly the indices above zero up to its start. -/
theorem mem_indicesDownFrom {last i : UInt64} : i ∈ indicesDownFrom last ↔ i ≠ 0 ∧ i ≤ last := by
  have hlast := last.toNat_lt
  rw [indicesDownFrom, List.mem_reverse, mem_map_ofNat_range' (by omega), UInt64.le_iff_toNat_le, ne_eq,
    ← UInt64.toNat_inj, UInt64.toNat_zero]
  omega

/-- The loop which counts down finds the largest of its indices with a property. -/
theorem ge_of_find?_indicesDownFrom {last k : UInt64} {p : UInt64 → Bool}
    (h : (indicesDownFrom last).find? p = some k) {i : UInt64} (hi : i ∈ indicesDownFrom last)
    (hp : p i = true) : i ≤ k := by
  have hlast := last.toNat_lt
  have hdescending : (indicesDownFrom last).Pairwise fun i j => j < i :=
    List.pairwise_reverse.mpr (pairwise_lt_map_ofNat_range' (by omega))
  rcases rel_of_find?_of_pairwise hdescending h hi hp with rfl | hless
  · exact UInt64.le_refl _
  · exact UInt64.le_of_lt hless

/-- A search by the loop which counts down comes to the largest of its indices with a property, or falls back
when none has it. -/
theorem find_indicesDownFrom_cases (last fallback : UInt64) (p : UInt64 → Bool) :
    (∃ k, ((indicesDownFrom last).find? p).getD fallback = k ∧ k ≠ 0 ∧ k ≤ last ∧ p k = true ∧
        ∀ i, k < i → i ≤ last → p i = false) ∨
      (((indicesDownFrom last).find? p).getD fallback = fallback ∧ ∀ i, i ≠ 0 → i ≤ last → p i = false) := by
  cases hfound : (indicesDownFrom last).find? p with
  | none =>
    refine Or.inr ⟨rfl, fun i hzero hi => ?_⟩
    exact Bool.eq_false_iff.mpr (List.find?_eq_none.mp hfound i (mem_indicesDownFrom.mpr ⟨hzero, hi⟩))
  | some k =>
    obtain ⟨hne, hk⟩ := mem_indicesDownFrom.mp (List.mem_of_find?_eq_some hfound)
    refine Or.inl ⟨k, rfl, hne, hk, List.find?_some hfound, fun i hbehind hi => ?_⟩
    by_contra hnot
    have hzero : i ≠ 0 := by
      rintro rfl
      exact UInt64.not_lt.mpr UInt64.zero_le hbehind
    have hvisited := mem_indicesDownFrom.mpr ⟨hzero, hi⟩
    exact UInt64.not_le.mpr hbehind
      (ge_of_find?_indicesDownFrom hfound hvisited (Bool.eq_true_of_not_eq_false hnot))

/-- The closed loop visits its indices in ascending order. -/
theorem pairwise_lt_of_indicesUpTo {first last : UInt64} {indices : List UInt64}
    (h : indicesUpTo first last = some indices) : indices.Pairwise (· < ·) := by
  unfold indicesUpTo at h
  split at h
  · simp at h
  · have hlast := last.toNat_lt
    have hfirst := first.toNat_lt
    rw [← Option.some.inj h]
    exact pairwise_lt_map_ofNat_range' (by omega)

/-- The closed loop visits exactly the indices between its ends. -/
theorem mem_of_indicesUpTo {first last : UInt64} {indices : List UInt64}
    (h : indicesUpTo first last = some indices) (i : UInt64) :
    i ∈ indices ↔ first ≤ i ∧ i ≤ last := by
  unfold indicesUpTo at h
  split at h
  · simp at h
  · next hlast =>
    have hbound := last.toNat_lt
    have hfirst := first.toNat_lt
    rw [← Option.some.inj h, mem_map_ofNat_range' (by omega), UInt64.le_iff_toNat_le,
      UInt64.le_iff_toNat_le]
    omega

/-- The closed loop from 0 on visits the indices below a later first one, and then those of the closed
loop from there. -/
theorem indicesUpTo_zero {first last : UInt64} (h : first ≤ last) :
    indicesUpTo 0 last = (indicesUpTo first last).map (indicesBelow 0 first ++ ·) := by
  rw [UInt64.le_iff_toNat_le] at h
  unfold indicesUpTo
  split
  · rfl
  · have happend := @List.range'_append_1 0 first.toNat (last.toNat + 1 - first.toNat)
    rw [Nat.zero_add, Nat.add_sub_of_le (Nat.le_succ_of_le h)] at happend
    rw [Option.map_some, indicesBelow, ← List.map_append, UInt64.toNat_zero, Nat.sub_zero, Nat.sub_zero, happend]

/-- The indices without a property and those with it, merged in ascending order, are all of them. -/
theorem merge_filter_not_filter {indices : List UInt64} (h : indices.Pairwise (· < ·)) (p : UInt64 → Bool) :
    ((indices.filter fun i => !p i).merge (indices.filter p) fun i j => decide (i ≤ j)) = indices := by
  have hle : indices.Pairwise fun i j => decide (i ≤ j) = true :=
    h.imp fun hless => decide_eq_true (UInt64.le_of_lt hless)
  apply List.Perm.eq_of_pairwise _ _ hle
  · apply (List.merge_perm_append _).trans
    apply List.perm_append_comm.trans
    exact List.filter_append_perm p indices
  · intro i j _ _ hij hji
    exact UInt64.le_antisymm (of_decide_eq_true hij) (of_decide_eq_true hji)
  · apply List.pairwise_merge _ _ _ _ (hle.filter _) (hle.filter _)
    · intro i j k hij hjk
      exact decide_eq_true (UInt64.le_trans (of_decide_eq_true hij) (of_decide_eq_true hjk))
    · intro i j
      rw [Bool.or_eq_true, decide_eq_true_eq, decide_eq_true_eq]
      exact UInt64.le_total i j
