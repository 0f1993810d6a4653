import Goshimmer.Core.UnspentOutputs
import Goshimmer.Library.TableSums

/-!
# The total and the totals of the colours

The balance of a table and the balance of a colour walk the same three levels with the same filters.
Every value has one colour, so the balances of the colours which occur sum up to the balance, modulo
2^64, and no balance depends on the order of the addresses, the outputs or the colours.
-/

namespace Goshimmer

/-! ## The colours of a table -/

/-- The colours which occur in an output. -/
def BalanceHt.colors (t : BalanceHt) : List Color := t.entries.map BalanceEntry.color

/-- The colours which occur under an address. -/
def OutputIds.colors (t : OutputIds) : List Color := t.entries.flatMap fun elm => elm.balances.colors

/-- The distinct colours which occur in a table. -/
def UnspentOutputs.colors (t : UnspentOutputs) : Finset Color :=
  (t.entries.flatMap fun elm => elm.ids.colors).toFinset

/-- The sums of the colours of an output are its sum. -/
theorem sum_balanceHtSumWithColor {t : BalanceHt} {colors : Finset Color} (h : ∀ c ∈ t.colors, c ∈ colors) :
    ∑ color ∈ colors, balanceHtSumWithColor t color = balanceHtSum t := by
  apply sum_foldl_add_weight_of_key colors BalanceEntry.color fun elm => elm.value.toUInt64
  intro elm helm
  exact h elm.color (List.mem_map_of_mem helm)

/-- The balances of the colours of an address are its balance. -/
theorem sum_outputIdsBalanceWithColor {t : OutputIds} {colors : Finset Color}
    (h : ∀ c ∈ t.colors, c ∈ colors) :
    ∑ color ∈ colors, outputIdsBalanceWithColor t color = outputIdsBalance t := by
  apply sum_foldl_add_weight_if colors (fun elm : OutputIdEntry => elm.st.confirmed = true)
  intro elm helm
  apply sum_balanceHtSumWithColor
  intro color hcolor
  exact h color (List.mem_flatMap.mpr ⟨elm, helm, hcolor⟩)

/-- The balances of the colours which occur in a table sum up to its balance. -/
theorem sum_unspentOutputsBalanceWithColor (t : UnspentOutputs) :
    ∑ color ∈ t.colors, unspentOutputsBalanceWithColor t color = unspentOutputsBalance t := by
  apply sum_foldl_add_weight_if t.colors (fun elm : UnspentOutputEntry => elm.counts = true)
  intro elm helm
  apply sum_outputIdsBalanceWithColor
  intro color hcolor
  exact List.mem_toFinset.mpr (List.mem_flatMap.mpr ⟨elm, helm, hcolor⟩)

/-! ## The order of the entries -/

/-- The same balances in any order. -/
def BalanceHt.SameEntries (t t' : BalanceHt) : Prop := t.SameUpTo Eq t'

/-- The same outputs in any order, with their balances in any order. -/
def OutputIds.SameEntries (t t' : OutputIds) : Prop :=
  t.SameUpTo (fun a b => a.id = b.id ∧ a.st = b.st ∧ a.balances.SameEntries b.balances) t'

/-- The same addresses in any order, with their outputs and balances in any order. -/
def UnspentOutputs.SameEntries (t t' : UnspentOutputs) : Prop :=
  t.SameUpTo (fun a b => a.addr = b.addr ∧ a.addrIndex = b.addrIndex ∧ a.spent = b.spent ∧
    a.ids.SameEntries b.ids) t'

/-- The order of the balances does not matter for the sums of an output. -/
theorem BalanceHt.SameEntries.sums_eq {t t' : BalanceHt} (h : t.SameEntries t') :
    balanceHtSum t = balanceHtSum t' ∧
      ∀ color, balanceHtSumWithColor t color = balanceHtSumWithColor t' color := by
  constructor
  · have hsum := h.foldl_add_weight_if_eq (fun _ => True) (fun elm => elm.value.toUInt64)
      fun a b hab => ⟨Iff.rfl, by rw [hab]⟩
    simp only [if_true] at hsum
    exact hsum
  · intro color
    apply h.foldl_add_weight_if_eq (fun elm => color = elm.color) fun elm => elm.value.toUInt64
    rintro a b rfl
    exact ⟨Iff.rfl, rfl⟩

/-- The order of the outputs does not matter for the balances of an address. -/
theorem OutputIds.SameEntries.balances_eq {t t' : OutputIds} (h : t.SameEntries t') :
    outputIdsBalance t = outputIdsBalance t' ∧
      ∀ color, outputIdsBalanceWithColor t color = outputIdsBalanceWithColor t' color := by
  constructor
  · apply h.foldl_add_weight_if_eq (fun elm => elm.st.confirmed = true) fun elm => balanceHtSum elm.balances
    rintro a b ⟨-, hst, hbalances⟩
    exact ⟨by rw [hst], hbalances.sums_eq.1⟩
  · intro color
    apply h.foldl_add_weight_if_eq (fun elm => elm.st.confirmed = true)
      fun elm => balanceHtSumWithColor elm.balances color
    rintro a b ⟨-, hst, hbalances⟩
    exact ⟨by rw [hst], hbalances.sums_eq.2 color⟩

/-- The order of the addresses does not matter for the balances of a table. -/
theorem UnspentOutputs.SameEntries.balances_eq {t t' : UnspentOutputs} (h : t.SameEntries t') :
    unspentOutputsBalance t = unspentOutputsBalance t' ∧
      ∀ color, unspentOutputsBalanceWithColor t color = unspentOutputsBalanceWithColor t' color := by
  have hcounts : ∀ a b : UnspentOutputEntry, a.spent = b.spent → a.ids.SameEntries b.ids →
      (a.counts = true ↔ b.counts = true) := by
    intro a b hspent hids
    rw [UnspentOutputEntry.counts, UnspentOutputEntry.counts, hspent, hids.isEmpty_eq]
  constructor
  · apply h.foldl_add_weight_if_eq (fun elm => elm.counts = true) fun elm => outputIdsBalance elm.ids
    rintro a b ⟨-, -, hspent, hids⟩
    exact ⟨hcounts a b hspent hids, hids.balances_eq.1⟩
  · intro color
    apply h.foldl_add_weight_if_eq (fun elm => elm.counts = true)
      fun elm => outputIdsBalanceWithColor elm.ids color
    rintro a b ⟨-, -, hspent, hids⟩
    exact ⟨hcounts a b hspent hids, hids.balances_eq.2 color⟩

/-- The balance of a table is the sum of the balances of the colours which occur in it, and a table
with the same entries in another order has the same balances. -/
theorem balance_by_colors_in_any_order (t : UnspentOutputs) :
    unspentOutputsBalance t = ∑ color ∈ t.colors, unspentOutputsBalanceWithColor t color ∧
      ∀ t', t.SameEntries t' → unspentOutputsBalance t' = unspentOutputsBalance t ∧
        ∀ color, unspentOutputsBalanceWithColor t' color = unspentOutputsBalanceWithColor t color := by
  refine ⟨(sum_unspentOutputsBalanceWithColor t).symm, fun t' h => ?_⟩
  obtain ⟨htotal, hcolors⟩ := h.balances_eq
  exact ⟨htotal.symm, fun color => (hcolors color).symm⟩

/-- A colour whose bytes are all the same. -/
def solidColor (byte : Byte) : Color := ⟨List.replicate 32 byte, by simp⟩

/-- The balances of two colours, one of them of a negative value. -/
def twoColors : List BalanceEntry := [⟨solidColor 0, 5⟩, ⟨solidColor 1, -2⟩]

/-- A confirmed output with the given balances. -/
def confirmedIds (balances : List BalanceEntry) : OutputIds :=
  outputIdsInit.insertNew ⟨Bytes.zero 32, balances.foldl InsertionTable.insertNew balanceHtInit,
    ⟨false, true, false, false, false, false, false⟩⟩

/-- Two addresses, the second without outputs. -/
def twoColorEntries (balances : List BalanceEntry) : List UnspentOutputEntry :=
  [⟨0, Bytes.zero 33, false, confirmedIds balances⟩,
    ⟨1, ⟨List.replicate 33 1, by simp⟩, false, outputIdsInit⟩]

/-- The table of these addresses. -/
def twoColorTable : UnspentOutputs :=
  (twoColorEntries twoColors).foldl InsertionTable.insertNew unspentOutputsInit

/-- The same table with its addresses and balances entered the other way round. -/
def reversedColorTable : UnspentOutputs :=
  (twoColorEntries twoColors.reverse).reverse.foldl InsertionTable.insertNew unspentOutputsInit

/-- The two tables hold the same entries. -/
theorem sameEntries_twoColorTable : twoColorTable.SameEntries reversedColorTable := by
  have hbalances : BalanceHt.SameEntries (twoColors.foldl InsertionTable.insertNew balanceHtInit)
      (twoColors.reverse.foldl InsertionTable.insertNew balanceHtInit) :=
    ⟨twoColors.reverse, by decide, .cons rfl (.cons rfl .nil)⟩
  have hids : (confirmedIds twoColors).SameEntries (confirmedIds twoColors.reverse) :=
    ⟨(confirmedIds twoColors).entries, List.Perm.refl _, .cons ⟨rfl, rfl, hbalances⟩ .nil⟩
  have hempty : outputIdsInit.SameEntries outputIdsInit := ⟨[], List.Perm.refl _, .nil⟩
  exact ⟨(twoColorEntries twoColors).reverse, by decide,
    .cons ⟨rfl, rfl, rfl, hempty⟩ (.cons ⟨rfl, rfl, rfl, hids⟩ .nil)⟩

/-- The balances of the two tables. -/
theorem balance_by_colors_in_any_order_two :
    unspentOutputsBalance twoColorTable =
        ∑ color ∈ twoColorTable.colors, unspentOutputsBalanceWithColor twoColorTable color ∧
      unspentOutputsBalance reversedColorTable = unspentOutputsBalance twoColorTable := by
  obtain ⟨hcolors, horder⟩ := balance_by_colors_in_any_order twoColorTable
  exact ⟨hcolors, (horder reversedColorTable sameEntries_twoColorTable).1⟩

end Goshimmer
