import Goshimmer.Core.TrueBalances

/-!
# The selection of outputs for an amount

The selection stops at the first running sum which covers the amount. The running sums are words, and
so is the balance which is computed over the selection afterwards; both stand for the true balance of
the prefix which is selected. When the values fit a word together, the selection is the shortest prefix
whose true balance covers the amount, or all there is.
-/

namespace Goshimmer

/-- The entries cover an amount of a colour. -/
def Covers (amount : UInt64) (color : Color) (p : List UnspentOutputEntry) : Prop :=
  (amount.toNat : ℤ) ≤ (p.map (UnspentOutputEntry.trueBalance color)).sum

/-- The entries cover an amount of a colour as a word counts them. -/
def CoversAsWord (amount : UInt64) (color : Color) (p : List UnspentOutputEntry) : Prop :=
  (amount.toNat : ℤ) ≤ (p.map (UnspentOutputEntry.trueBalance color)).sum % 2 ^ 64

/-- The test of the selection, against the true balance of the entries so far. -/
theorem le_sum_contribution_iff (amount : UInt64) (color : Color) (p : List UnspentOutputEntry) :
    amount ≤ (p.map (UnspentOutputEntry.contribution color)).sum ↔ CoversAsWord amount color p := by
  rw [sum_contribution_eq_ofInt, le_ofInt_iff]
  rfl

/-- The selection is the shortest nonempty prefix which covers the amount as a word counts it, or all
eligible entries when none does. -/
theorem requiredOutputs_cases (t : UnspentOutputs) (amount : UInt64) (color : Color) :
    IsShortestPrefix (fun p => p ≠ [] ∧ CoversAsWord amount color p) t.eligible
        (unspentOutputsRequiredOutputs t amount color).entries ∨
      ((unspentOutputsRequiredOutputs t amount color).entries = t.eligible ∧
        ∀ p, p <+: t.eligible → p ≠ [] → ¬ CoversAsWord amount color p) := by
  rw [entries_unspentOutputsRequiredOutputs]
  have hcovers : ∀ p : List UnspentOutputEntry,
      decide (amount ≤ 0 + (p.map (UnspentOutputEntry.contribution color)).sum) = true ↔
        CoversAsWord amount color p := by
    intro p
    rw [zero_add, decide_eq_true_eq, le_sum_contribution_iff]
  rcases coveringPrefix_cases (UnspentOutputEntry.contribution color) (fun total => decide (amount ≤ total)) 0
    t.eligible with hshortest | ⟨hall, hnone⟩
  · simp only [hcovers] at hshortest
    exact Or.inl hshortest
  · refine Or.inr ⟨hall, fun p hp hne hword => ?_⟩
    exact absurd ((hcovers p).mpr hword) (Bool.eq_false_iff.mp (hnone p hp hne))

/-- Every selected entry is eligible in the selection, too. -/
theorem eligible_requiredOutputs (t : UnspentOutputs) (amount : UInt64) (color : Color) :
    (unspentOutputsRequiredOutputs t amount color).eligible =
      (unspentOutputsRequiredOutputs t amount color).entries := by
  apply List.filter_eq_self.mpr
  intro elm helm
  exact (List.mem_filter.mp (mem_eligible_of_selected helm)).2

/-- The balance which is computed over the selection covers the amount exactly when the selected
entries do as a word counts them. -/
theorem le_balance_requiredOutputs_iff (t : UnspentOutputs) (amount : UInt64) (color : Color) :
    amount ≤ unspentOutputsBalanceWithColor (unspentOutputsRequiredOutputs t amount color) color ↔
      CoversAsWord amount color (unspentOutputsRequiredOutputs t amount color).entries := by
  rw [unspentOutputsBalanceWithColor_eq_sum, eligible_requiredOutputs, le_sum_contribution_iff]

/-- Where the values fit a word together, a word counts the entries as they are. -/
theorem coversAsWord_iff {t : UnspentOutputs} (hvalues : t.NonNegative) (htotal : t.trueTotal < 2 ^ 64)
    (amount : UInt64) (color : Color) {p : List UnspentOutputEntry} (hp : p <+: t.eligible) :
    CoversAsWord amount color p ↔ Covers amount color p := by
  obtain ⟨hnonneg, hle⟩ := hvalues.sum_prefix_bounds color hp
  have hfits := (hle.trans (hvalues.trueBalance_le_trueTotal color)).trans_lt htotal
  rw [CoversAsWord, Int.emod_eq_of_lt hnonneg hfits, Covers]

/-- A positive amount is not covered by nothing. -/
theorem not_covers_nil {amount : UInt64} (hamount : 0 < amount) (color : Color) : ¬ Covers amount color [] := by
  have hpositive := UInt64.lt_iff_toNat_lt.mp hamount
  rw [Covers, List.map_nil, List.sum_nil]
  simp only [UInt64.toNat_zero] at hpositive
  omega

/-- Where no value is negative and all values fit a word together, the selection for a positive amount
copies the shortest prefix of the eligible entries whose confirmed balance of the colour covers the
amount, or all of them when none does. So the selection covers the amount exactly when the table does. -/
theorem requiredOutputs_shortest_prefix {t : UnspentOutputs} (hvalues : t.NonNegative)
    (htotal : t.trueTotal < 2 ^ 64) {amount : UInt64} (hamount : 0 < amount) (color : Color) :
    (IsShortestPrefix (Covers amount color) t.eligible
          (unspentOutputsRequiredOutputs t amount color).entries ∨
        (∀ p, p <+: t.eligible → ¬ Covers amount color p) ∧
          (unspentOutputsRequiredOutputs t amount color).entries = t.eligible) ∧
      (amount ≤ unspentOutputsBalanceWithColor (unspentOutputsRequiredOutputs t amount color) color ↔
        amount ≤ unspentOutputsBalanceWithColor t color) := by
  have hword : ∀ {p : List UnspentOutputEntry}, p <+: t.eligible →
      (p ≠ [] ∧ CoversAsWord amount color p ↔ Covers amount color p) := by
    intro p hp
    rw [coversAsWord_iff hvalues htotal amount color hp]
    refine ⟨And.right, fun hcovers => ⟨?_, hcovers⟩⟩
    rintro rfl
    exact not_covers_nil hamount color hcovers
  have htable : amount ≤ unspentOutputsBalanceWithColor t color ↔ Covers amount color t.eligible := by
    rw [unspentOutputsBalanceWithColor_eq_sum, le_sum_contribution_iff,
      coversAsWord_iff hvalues htotal amount color (List.prefix_refl _)]
  rw [le_balance_requiredOutputs_iff, htable]
  rcases requiredOutputs_cases t amount color with hshortest | ⟨hall, hnone⟩
  · have hcovers := (hword hshortest.isPrefix).mp hshortest.isEnough
    refine ⟨Or.inl ⟨hshortest.isPrefix, hcovers, fun q hq henough => ?_⟩, ?_⟩
    · exact hshortest.shortest q hq ((hword (hq.trans hshortest.isPrefix)).mpr henough)
    · have hle := hcovers.trans (hvalues.sum_prefix_bounds color hshortest.isPrefix).2
      rw [t.trueBalance_eq_sum] at hle
      exact ⟨fun _ => hle, fun _ => hshortest.isEnough.2⟩
  · refine ⟨Or.inr ⟨fun p hp hcovers => ?_, hall⟩, ?_⟩
    · obtain ⟨hne, hcounted⟩ := (hword hp).mpr hcovers
      exact hnone p hp hne hcounted
    · rw [hall, coversAsWord_iff hvalues htotal amount color (List.prefix_refl _)]

/-- A confirmed output of some plain tokens. -/
def plainOutput (value : Int64) : OutputIds :=
  outputIdsInit.insertNew ⟨Bytes.zero 32, balanceHtInit.insertNew ⟨Bytes.zero 32, value⟩,
    ⟨false, true, false, false, false, false, false⟩⟩

/-- The address which starts with a byte. -/
def addressOfByte (byte : Byte) : Address := ⟨byte :: List.replicate 32 0, by simp⟩

/-- A spent address with nine tokens, one without outputs, and addresses with two, five and one tokens. -/
def mixedTable : UnspentOutputs :=
  [⟨0, addressOfByte 0, true, plainOutput 9⟩, ⟨1, addressOfByte 1, false, outputIdsInit⟩,
    ⟨2, addressOfByte 2, false, plainOutput 2⟩, ⟨3, addressOfByte 3, false, plainOutput 5⟩,
    (⟨4, addressOfByte 4, false, plainOutput 1⟩ : UnspentOutputEntry)].foldl InsertionTable.insertNew
    unspentOutputsInit

/-- Its values are not negative. -/
theorem nonNegative_mixedTable : mixedTable.NonNegative := by
  unfold UnspentOutputs.NonNegative
  decide

/-- Six tokens are covered by the addresses with two and five of them: the spent address and the empty one are
passed over, and the last one is not reached. -/
theorem requiredOutputs_shortest_prefix_mixed :
    (IsShortestPrefix (Covers 6 (Bytes.zero 32)) mixedTable.eligible
          (unspentOutputsRequiredOutputs mixedTable 6 (Bytes.zero 32)).entries ∨
        (∀ p, p <+: mixedTable.eligible → ¬ Covers 6 (Bytes.zero 32) p) ∧
          (unspentOutputsRequiredOutputs mixedTable 6 (Bytes.zero 32)).entries = mixedTable.eligible) ∧
      (6 ≤ unspentOutputsBalanceWithColor (unspentOutputsRequiredOutputs mixedTable 6 (Bytes.zero 32))
          (Bytes.zero 32) ↔
        6 ≤ unspentOutputsBalanceWithColor mixedTable (Bytes.zero 32)) :=
  requiredOutputs_shortest_prefix nonNegative_mixedTable (by decide) (by decide) (Bytes.zero 32)

/-- So two of its entries are selected. -/
example : (unspentOutputsRequiredOutputs mixedTable 6 (Bytes.zero 32)).entries.map UnspentOutputEntry.addrIndex =
    [2, 3] := by decide

end Goshimmer
