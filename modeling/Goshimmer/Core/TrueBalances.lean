import Goshimmer.Core.UnspentOutputs
import Goshimmer.Library.TableSums
import Mathlib.Algebra.Order.BigOperators.Group.List
import Mathlib.Algebra.Order.Group.Int

/-!
# True balances

The sums of balances are accumulated in 64-bit words. Their true values are integers, and a word
stands for the true value modulo 2^64. Where no value is negative and all values together fit a word,
the words compare as the true values do.
-/

namespace Goshimmer

/-- The true sum of the values of a colour. -/
def BalanceHt.trueSum (t : BalanceHt) (color : Color) : ℤ :=
  (t.entries.map fun elm => if color = elm.color then elm.value.toInt else 0).sum

/-- The true sum of the values of a colour under the confirmed outputs. -/
def OutputIds.trueBalance (t : OutputIds) (color : Color) : ℤ :=
  (t.entries.map fun elm => if elm.st.confirmed then elm.balances.trueSum color else 0).sum

/-- The true confirmed balance of a colour of an entry. -/
def UnspentOutputEntry.trueBalance (color : Color) (elm : UnspentOutputEntry) : ℤ :=
  elm.ids.trueBalance color

/-- The true sum of the confirmed balances of a colour on the unspent entries. -/
def UnspentOutputs.trueBalance (t : UnspentOutputs) (color : Color) : ℤ :=
  (t.entries.map fun elm => if elm.spent then 0 else elm.trueBalance color).sum

/-- The true sum of all values of an output. -/
def BalanceHt.trueTotal (t : BalanceHt) : ℤ := (t.entries.map fun elm => elm.value.toInt).sum

/-- The true sum of all values of an address. -/
def OutputIds.trueTotal (t : OutputIds) : ℤ := (t.entries.map fun elm => elm.balances.trueTotal).sum

/-- The true sum of all values of a table. -/
def UnspentOutputs.trueTotal (t : UnspentOutputs) : ℤ := (t.entries.map fun elm => elm.ids.trueTotal).sum

/-- No value of the table is negative. -/
def UnspentOutputs.NonNegative (t : UnspentOutputs) : Prop :=
  ∀ elm ∈ t.entries, ∀ out ∈ elm.ids.entries, ∀ b ∈ out.balances.entries, 0 ≤ b.value.toInt

/-! ## Words and true values -/

/-- The sum of a colour stands for the true one. -/
theorem balanceHtSumWithColor_eq_ofInt (t : BalanceHt) (color : Color) :
    balanceHtSumWithColor t color = UInt64.ofInt (t.trueSum color) := by
  unfold balanceHtSumWithColor BalanceHt.trueSum
  rw [foldl_add_weight_if, zero_add, ← sum_map_ofInt]
  congr 2
  funext elm
  split
  · rw [ofInt_toInt]
  · rfl

/-- The confirmed balance of an address stands for the true one. -/
theorem outputIdsBalanceWithColor_eq_ofInt (t : OutputIds) (color : Color) :
    outputIdsBalanceWithColor t color = UInt64.ofInt (t.trueBalance color) := by
  unfold outputIdsBalanceWithColor OutputIds.trueBalance
  rw [foldl_add_weight_if, zero_add, ← sum_map_ofInt]
  congr 2
  funext elm
  split
  · rw [balanceHtSumWithColor_eq_ofInt]
  · rfl

/-- What entries add to a running sum stands for their true balances. -/
theorem sum_contribution_eq_ofInt (color : Color) (l : List UnspentOutputEntry) :
    (l.map (UnspentOutputEntry.contribution color)).sum =
      UInt64.ofInt (l.map (UnspentOutputEntry.trueBalance color)).sum := by
  rw [← sum_map_ofInt]
  congr 2
  funext elm
  exact outputIdsBalanceWithColor_eq_ofInt elm.ids color

/-- The true balance of a table is that of its eligible entries. -/
theorem UnspentOutputs.trueBalance_eq_sum (t : UnspentOutputs) (color : Color) :
    t.trueBalance color = (t.eligible.map (UnspentOutputEntry.trueBalance color)).sum := by
  unfold UnspentOutputs.trueBalance UnspentOutputs.eligible
  induction t.entries with
  | nil => rfl
  | cons elm rest ih =>
    rw [List.map_cons, List.sum_cons, ih]
    by_cases hcounts : elm.counts = true
    · have hspent := hcounts
      simp only [UnspentOutputEntry.counts, Bool.and_eq_true, Bool.not_eq_true'] at hspent
      rw [List.filter_cons_of_pos hcounts, List.map_cons, List.sum_cons, hspent.1]
      rfl
    · have hzero : (if elm.spent then 0 else elm.trueBalance color) = 0 := by
        split
        · rfl
        · next hunspent =>
          have hempty : elm.ids.entries = [] := by
            simpa [UnspentOutputEntry.counts, hunspent, InsertionTable.isEmpty] using hcounts
          rw [UnspentOutputEntry.trueBalance, OutputIds.trueBalance, hempty]
          rfl
      rw [List.filter_cons_of_neg hcounts, hzero, zero_add]

/-! ## Values which are not negative -/

/-- The true sum of a colour is not negative and at most the total. -/
theorem BalanceHt.trueSum_bounds {t : BalanceHt} (h : ∀ b ∈ t.entries, 0 ≤ b.value.toInt) (color : Color) :
    0 ≤ t.trueSum color ∧ t.trueSum color ≤ t.trueTotal := by
  apply sum_map_if_bounds
  intro elm helm
  exact ⟨h elm helm, le_refl _⟩

/-- The true balance of an address is not negative and at most the total. -/
theorem OutputIds.trueBalance_bounds {t : OutputIds}
    (h : ∀ out ∈ t.entries, ∀ b ∈ out.balances.entries, 0 ≤ b.value.toInt) (color : Color) :
    0 ≤ t.trueBalance color ∧ t.trueBalance color ≤ t.trueTotal := by
  apply sum_map_if_bounds
  intro elm helm
  exact BalanceHt.trueSum_bounds (h elm helm) color

/-- The true balance of an eligible entry is not negative. -/
theorem UnspentOutputs.NonNegative.trueBalance_nonneg {t : UnspentOutputs} (h : t.NonNegative) (color : Color)
    {elm : UnspentOutputEntry} (helm : elm ∈ t.eligible) : 0 ≤ elm.trueBalance color :=
  (OutputIds.trueBalance_bounds (h elm (List.mem_filter.mp helm).1) color).1

/-- A prefix of the eligible entries has at most the true balance of the table. -/
theorem UnspentOutputs.NonNegative.sum_prefix_bounds {t : UnspentOutputs} (h : t.NonNegative) (color : Color)
    {p : List UnspentOutputEntry} (hp : p <+: t.eligible) :
    0 ≤ (p.map (UnspentOutputEntry.trueBalance color)).sum ∧
      (p.map (UnspentOutputEntry.trueBalance color)).sum ≤ t.trueBalance color := by
  constructor
  · refine List.sum_nonneg fun value hvalue => ?_
    obtain ⟨elm, helm, rfl⟩ := List.mem_map.mp hvalue
    exact h.trueBalance_nonneg color (hp.subset helm)
  · rw [t.trueBalance_eq_sum]
    refine List.Sublist.sum_le_sum (hp.sublist.map _) fun value hvalue => ?_
    obtain ⟨elm, helm, rfl⟩ := List.mem_map.mp hvalue
    exact h.trueBalance_nonneg color helm

/-- The true balance of a colour is at most the total of the table. -/
theorem UnspentOutputs.NonNegative.trueBalance_le_trueTotal {t : UnspentOutputs} (h : t.NonNegative)
    (color : Color) : t.trueBalance color ≤ t.trueTotal := by
  have hbounds : ∀ elm ∈ t.entries, 0 ≤ elm.trueBalance color ∧ elm.trueBalance color ≤ elm.ids.trueTotal := by
    intro elm helm
    exact OutputIds.trueBalance_bounds (h elm helm) color
  have hsome := (sum_map_if_bounds (p := fun elm : UnspentOutputEntry => ¬ elm.spent = true) hbounds).2
  simp only [ite_not] at hsome
  exact hsome

end Goshimmer
