import Goshimmer.Library.CoveringPrefix
import Goshimmer.Library.InsertionTable
import Mathlib.Algebra.BigOperators.Group.Finset.Basic
import Mathlib.Algebra.BigOperators.Group.Finset.Piecewise
import Mathlib.Algebra.Order.Monoid.Defs
import Mathlib.Data.List.Forall2
import Mathlib.Data.UInt

/-!
# Sums over tables

The weights of some entries of a table are accumulated in the order of iteration. Accumulating a
family of weights and summing over the family is accumulating the sums of the family. The order of
the entries does not matter, and neither does what their weights do not see.

A sum which is accumulated in a 64-bit word is the true sum modulo 2^64. A word which stands for an
integer in the range of the type compares with other words as the integer does; outside of the range
it only stands for less.
-/

variable {A K M V : Type*} [AddCommMonoid M]

/-- A sum over a family of lists of weights is the list sum of the sums over the family. -/
theorem sum_sum_map (family : Finset K) (weight : K → A → M) (l : List A) :
    ∑ k ∈ family, (l.map (weight k)).sum = (l.map fun a => ∑ k ∈ family, weight k a).sum := by
  induction l with
  | nil => simp
  | cons a rest ih => simp only [List.map_cons, List.sum_cons, Finset.sum_add_distrib, ih]

/-- The sum over a family of accumulated weights is the accumulated sum over the family. -/
theorem sum_foldl_add_weight_if (family : Finset K) (p : A → Prop) [DecidablePred p] (weight : K → A → M)
    (total : A → M) (l : List A) (h : ∀ a ∈ l, ∑ k ∈ family, weight k a = total a) :
    ∑ k ∈ family, l.foldl (fun sum a => if p a then sum + weight k a else sum) 0 =
      l.foldl (fun sum a => if p a then sum + total a else sum) 0 := by
  simp only [foldl_add_weight_if, zero_add]
  rw [sum_sum_map]
  congr 1
  apply List.map_congr_left
  intro a ha
  by_cases hp : p a
  · simp only [if_pos hp, h a ha]
  · simp only [if_neg hp, Finset.sum_const_zero]

/-- Where every weight goes to one member of the family, accumulating each member's weights apart and
summing up is accumulating all of them. -/
theorem sum_foldl_add_weight_of_key [DecidableEq K] (family : Finset K) (key : A → K) (weight : A → M)
    (l : List A) (h : ∀ a ∈ l, key a ∈ family) :
    ∑ k ∈ family, l.foldl (fun sum a => if k = key a then sum + weight a else sum) 0 =
      l.foldl (fun sum a => sum + weight a) 0 := by
  simp only [foldl_add_weight_if, foldl_add_weight, zero_add]
  rw [sum_sum_map]
  congr 1
  apply List.map_congr_left
  intro a ha
  rw [Finset.sum_ite_eq' family (key a) fun _ => weight a, if_pos (h a ha)]

/-- Where every weight lies between zero and its total, so does the sum over some of the entries. -/
theorem sum_map_if_bounds [PartialOrder M] [IsOrderedAddMonoid M] {p : A → Prop} [DecidablePred p]
    {weight total : A → M} {l : List A} (h : ∀ a ∈ l, 0 ≤ weight a ∧ weight a ≤ total a) :
    0 ≤ (l.map fun a => if p a then weight a else 0).sum ∧
      (l.map fun a => if p a then weight a else 0).sum ≤ (l.map total).sum := by
  induction l with
  | nil => exact ⟨le_refl 0, le_refl 0⟩
  | cons a rest ih =>
    have hhead := h a List.mem_cons_self
    have hrest := ih fun b hb => h b (List.mem_cons_of_mem _ hb)
    simp only [List.map_cons, List.sum_cons]
    split
    · exact ⟨add_nonneg hhead.1 hrest.1, add_le_add hhead.2 hrest.2⟩
    · exact ⟨add_nonneg (le_refl 0) hrest.1, add_le_add (hhead.1.trans hhead.2) hrest.2⟩

namespace InsertionTable

variable {key : V → K}

/-- Two tables hold the same entries up to a relation, in any order. -/
def SameUpTo (same : V → V → Prop) (t t' : InsertionTable key) : Prop :=
  ∃ l, t.entries.Perm l ∧ List.Forall₂ same l t'.entries

/-- Such tables are both empty, or neither is. -/
theorem SameUpTo.isEmpty_eq {same : V → V → Prop} {t t' : InsertionTable key} (h : SameUpTo same t t') :
    t.isEmpty = t'.isEmpty := by
  obtain ⟨l, hperm, hsame⟩ := h
  have hlength : t.entries.length = t'.entries.length := hperm.length_eq.trans hsame.length_eq
  rw [isEmpty, isEmpty, Bool.eq_iff_iff, List.isEmpty_iff_length_eq_zero, List.isEmpty_iff_length_eq_zero,
    hlength]

/-- Weights which the relation does not see accumulate to the same total. -/
theorem SameUpTo.foldl_add_weight_if_eq {same : V → V → Prop} {t t' : InsertionTable key}
    (h : SameUpTo same t t') (p : V → Prop) [DecidablePred p] (weight : V → M)
    (hsame : ∀ v w, same v w → (p v ↔ p w) ∧ weight v = weight w) :
    t.entries.foldl (fun sum v => if p v then sum + weight v else sum) 0 =
      t'.entries.foldl (fun sum v => if p v then sum + weight v else sum) 0 := by
  obtain ⟨l, hperm, hrelated⟩ := h
  rw [foldl_add_weight_if, foldl_add_weight_if, (hperm.map _).sum_eq]
  congr 2
  clear hperm
  generalize t'.entries = entries at hrelated
  induction hrelated with
  | nil => rfl
  | cons hhead _ ih =>
    obtain ⟨hp, hweight⟩ := hsame _ _ hhead
    rw [List.map_cons, List.map_cons, hweight]
    simp only [hp]
    rw [ih]

/-- A sum over selected entries, of weights which their keys tell, is the sum over these keys in any
order. -/
theorem sum_filter_eq_sum_keys (t : InsertionTable key) (p : V → Bool) (value : K → M) {weight : V → M}
    (hvalue : ∀ v ∈ t.entries, p v = true → weight v = value (key v)) {keys : List K} (hnodup : keys.Nodup)
    (hkeys : ∀ k, k ∈ keys ↔ ∃ v ∈ t.entries, p v = true ∧ key v = k) :
    ((t.entries.filter p).map weight).sum = (keys.map value).sum := by
  have hweights : (t.entries.filter p).map weight = ((t.entries.filter p).map key).map value := by
    rw [List.map_map]
    refine List.map_congr_left fun v hv => ?_
    obtain ⟨hmem, hp⟩ := List.mem_filter.mp hv
    exact hvalue v hmem hp
  have hselected : ((t.entries.filter p).map key).Nodup := t.nodup.sublist (List.filter_sublist.map key)
  have hperm : ((t.entries.filter p).map key).Perm keys := by
    rw [List.perm_ext_iff_of_nodup hselected hnodup]
    intro k
    rw [hkeys, List.mem_map]
    simp only [List.mem_filter, and_assoc]
  rw [hweights, (hperm.map value).sum_eq]

end InsertionTable

/-- Where some keys are retired and new ones have nothing yet, what was held before is what is held afterwards
with what the retired keys took along, up to what the others gained. -/
theorem sum_add_gain_eq_of_retired [DecidableEq K]
    {before after retired : Finset K} {held heldAfter gain : K → M} (hretired : retired ⊆ before)
    (hafter : ∀ i ∈ before, i ∉ retired → i ∈ after) (hgone : ∀ i ∈ after, i ∉ retired)
    (hnew : ∀ i ∈ after, i ∉ before → held i = 0) (hheld : ∀ i ∈ after, heldAfter i = held i + gain i) :
    ∑ i ∈ before, held i + ∑ i ∈ after, gain i = ∑ i ∈ after, heldAfter i + ∑ i ∈ retired, held i := by
  have hkept : ∑ i ∈ before \ retired, held i = ∑ i ∈ after, held i := by
    apply Finset.sum_subset
    · intro i hi
      obtain ⟨hbefore, hleft⟩ := Finset.mem_sdiff.mp hi
      exact hafter i hbefore hleft
    · intro i hi hnot
      exact hnew i hi fun hbefore => hnot (Finset.mem_sdiff.mpr ⟨hbefore, hgone i hi⟩)
  rw [Finset.sum_congr rfl hheld, Finset.sum_add_distrib, ← Finset.sum_sdiff hretired, hkept, add_right_comm]

/-! ## Sums of machine words -/

/-- The value of a word which stands for an integer. -/
theorem toNat_ofInt (z : ℤ) : ((UInt64.ofInt z).toNat : ℤ) = z % 2 ^ 64 := by
  have hnonneg : 0 ≤ z % 2 ^ 64 := Int.emod_nonneg _ (by decide)
  have hfits : z % 2 ^ 64 < 2 ^ 64 := Int.emod_lt_of_pos _ (by decide)
  rw [UInt64.ofInt, UInt64.toNat_ofNat_of_lt' (by simp only [UInt64.size]; omega)]
  exact Int.toNat_of_nonneg hnonneg

/-- A signed word enters an unsigned sum as its integer does. -/
theorem ofInt_toInt (value : Int64) : UInt64.ofInt value.toInt = value.toUInt64 := by
  rw [← UInt64.toNat_inj, ← Int.ofNat_inj, toNat_ofInt, ← Int64.toInt_toBitVec, BitVec.toInt_eq_toNat_bmod]
  have hmod : Int.bmod value.toBitVec.toNat (2 ^ 64) % 2 ^ 64 = (value.toBitVec.toNat : ℤ) % 2 ^ 64 :=
    Int.bmod_emod
  rw [hmod, Int.emod_eq_of_lt (Int.natCast_nonneg _) (by have := value.toBitVec.isLt; omega)]
  rfl

/-- Words which stand for integers sum up to the word which stands for the sum. -/
theorem sum_map_ofInt {A : Type*} (weight : A → ℤ) (l : List A) :
    (l.map fun a => UInt64.ofInt (weight a)).sum = UInt64.ofInt (l.map weight).sum := by
  induction l with
  | nil => rfl
  | cons a rest ih => rw [List.map_cons, List.sum_cons, ih, List.map_cons, List.sum_cons, UInt64.ofInt_add]

/-- A word is covered by the remainder of an integer which another word stands for. -/
theorem le_ofInt_iff {word : UInt64} {z : ℤ} : word ≤ UInt64.ofInt z ↔ (word.toNat : ℤ) ≤ z % 2 ^ 64 := by
  rw [UInt64.le_iff_toNat_le, ← Int.ofNat_le, toNat_ofInt]

/-- A word is positive as a signed one exactly when it is positive and below half of the range. -/
theorem toInt64_pos_iff {word : UInt64} : 0 < word.toInt64.toInt ↔ 0 < word.toNat ∧ word.toNat < 2 ^ 63 := by
  rw [← Int64.toInt_toBitVec, UInt64.toBitVec_toInt64, BitVec.toInt_eq_toNat_cond, UInt64.toNat_toBitVec]
  have hbound := word.toNat_lt
  split
  · omega
  · omega
