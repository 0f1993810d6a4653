import Goshimmer.Wallet.Cursors
import Goshimmer.Wallet.Request

/-!
# The indices which stay unspent

A refresh asks for the unspent indices between the cursors, and goes wrong when there are none: the
jump to its end frees a table which was never set up. An index is left for sure when its bit is
clear and reading it does not fall on the byte right behind the mask. A send marks the recorded
indices of its selection, and it makes a new address when every index between the cursors is
selected and there is a remainder.
-/

namespace Goshimmer

/-! ## Indices which are left -/

/-- An index between the cursors reads as unspent, whatever lies behind the mask, and the loops over the
indices end. -/
structure WalletAm.HasUnspent (am : WalletAm) : Prop where
  last_lt : am.lastAddrIndex.toNat + 1 < 2 ^ 64
  left : ∃ i, am.firstUnspentIdx ≤ i ∧ i ≤ am.lastAddrIndex ∧ ∀ heap, amIsSpentAddress heap am i = false

/-- The addresses of a loop over the indices which visits one of them. -/
theorem exists_cons_amAddressList (sodium : Sodium) (am : WalletAm) {indices : List UInt64} {i : UInt64}
    (hi : i ∈ indices) : ∃ addr rest, amAddressList sodium am indices = addr :: rest := by
  refine List.exists_cons_of_ne_nil fun hempty => ?_
  rw [List.map_eq_nil_iff.mp hempty] at hi
  exact List.not_mem_nil hi

/-- With an index left the list of unspent addresses is not empty. -/
theorem WalletAm.HasUnspent.amUnspentAddresses {am : WalletAm} (h : am.HasUnspent) (sodium : Sodium)
    (heap : UInt64 → Byte) : ∃ addr rest, amUnspentAddresses sodium heap am = some (addr :: rest) := by
  obtain ⟨i, hfirst, hlast, hclear⟩ := h.left
  obtain ⟨indices, hindices⟩ := exists_indicesUpTo am.firstUnspentIdx h.last_lt
  have hvisited : i ∈ indices.filter fun i => !amIsSpentAddress heap am i := by
    rw [List.mem_filter, mem_of_indicesUpTo hindices]
    exact ⟨⟨hfirst, hlast⟩, by rw [hclear heap, Bool.not_false]⟩
  obtain ⟨addr, rest, hlist⟩ := exists_cons_amAddressList sodium am hvisited
  exact ⟨addr, rest, by rw [Goshimmer.amUnspentAddresses, hindices, Option.map_some, hlist]⟩

/-- With an index left a refresh has an address to ask for. -/
theorem WalletAm.HasUnspent.refreshAddresses {w : Wallet} (h : w.addrManager.HasUnspent)
    (libs : Libraries) (env : Env) (includeSpent : Bool) :
    ∃ addr rest, refreshAddresses libs env w includeSpent = some (addr :: rest) := by
  cases includeSpent with
  | false => exact h.amUnspentAddresses libs.sodium env.heap
  | true =>
    obtain ⟨indices, hindices⟩ := exists_indicesUpTo 0 h.last_lt
    have hvisited : w.addrManager.lastAddrIndex ∈ indices :=
      (mem_of_indicesUpTo hindices _).mpr ⟨UInt64.zero_le, UInt64.le_refl _⟩
    obtain ⟨addr, rest, hlist⟩ := exists_cons_amAddressList libs.sodium w.addrManager hvisited
    refine ⟨addr, rest, ?_⟩
    rw [Goshimmer.refreshAddresses, if_pos rfl, amAddresses, hindices, Option.map_some, hlist]

variable (libs : Libraries)

/-- Asking for an address which is not the last one of all leaves an index. -/
theorem WalletAm.HasUnspent.amGetAddress {am : WalletAm} (h : am.HasUnspent) {index : UInt64}
    (hindex : index.toNat + 1 < 2 ^ 64) : (amGetAddress libs.sodium am index).1.HasUnspent := by
  obtain ⟨i, hfirst, hlast, hclear⟩ := h.left
  rw [amGetAddress_eq]
  by_cases hnew : am.lastAddrIndex < index
  · simp only [if_pos hnew]
    refine ⟨hindex, index, ?_, UInt64.le_refl _, bitmaskGet_clear am.spentAddr index⟩
    exact UInt64.le_trans hfirst (UInt64.le_trans hlast (UInt64.le_of_lt hnew))
  · simp only [if_neg hnew]
    exact ⟨h.last_lt, i, hfirst, hlast, hclear⟩

/-! ## The address for the remainder -/

/-- A new address, below the end of the counter, is the largest one, and its bit is cleared. -/
theorem amGetNewAddress_raises {am : WalletAm} (hnew : am.lastAddrIndex < am.lastAddrIndex + 1) :
    (amGetNewAddress libs.sodium am).1.lastAddrIndex = am.lastAddrIndex + 1 ∧
      (amGetNewAddress libs.sodium am).1.firstUnspentIdx = am.firstUnspentIdx ∧
      (amGetNewAddress libs.sodium am).1.spentAddr.marked (am.lastAddrIndex + 1) = false ∧
      (am.lastAddrIndex + 1).toNat / 8 < (amGetNewAddress libs.sodium am).1.spentAddr.cap := by
  rw [amGetNewAddress, amGetAddress_eq]
  simp only [if_pos hnew, marked_bitmaskOp, if_true, BitmaskOp.onBit, cap_bitmaskOp]
  exact ⟨trivial, trivial, trivial, by omega⟩

/-- The search stops at the first index from its counter on whose address is not selected. Up to the
largest index it leaves the address manager alone; behind it the index becomes the largest one, with
its bit cleared. -/
theorem Searched.stops_at {unspent : UnspentOutputs} {i j : UInt64} {am : WalletAm} {remainder : Address}
    {addrIndex : UInt64} {result : WalletAm × Address × UInt64}
    (h : Searched libs unspent i am remainder addrIndex result) {seed : Seed} (hseed : am.seed = seed)
    (hle : i ≤ am.lastAddrIndex) (hij : i ≤ j)
    (hbefore : ∀ k, i ≤ k → k < j → (unspentOutputsFind unspent (addressGet libs.sodium seed k)).isSome)
    (hfree : unspentOutputsFind unspent (addressGet libs.sodium seed j) = none) :
    (j ≤ am.lastAddrIndex → result.1 = am) ∧
      (am.lastAddrIndex < j → result.1.lastAddrIndex = j ∧
        result.1.firstUnspentIdx = am.firstUnspentIdx ∧ result.1.spentAddr.marked j = false ∧
        j.toNat / 8 < result.1.spentAddr.cap) := by
  -- the index behind a selected one is still not behind the first free one
  have hnext : ∀ {i : UInt64}, i ≤ j →
      (unspentOutputsFind unspent (addressGet libs.sodium seed i)).isSome → i < j := by
    intro i hij hselected
    refine UInt64.lt_of_le_of_ne hij fun heq => ?_
    rw [heq, hfree] at hselected
    simp at hselected
  induction h with
  | ended hend => exact absurd hle hend
  | @found i am _ _ _ hfound =>
    have hsame : i = j := by
      rcases UInt64.lt_or_eq_of_le hij with hless | heq
      · have hselected := hbefore i (UInt64.le_refl i) hless
        rw [← hseed, hfound] at hselected
        simp at hselected
      · exact heq
    rw [← hsame]
    exact ⟨fun _ => rfl, fun hless => absurd hle (UInt64.not_le.mpr hless)⟩
  | @raised am _ _ _ hselected _ ih =>
    have hless : am.lastAddrIndex < j := hnext hij (hseed ▸ hselected)
    have hnew : am.lastAddrIndex < am.lastAddrIndex + 1 := lt_add_one_of_lt hless
    have hij' : am.lastAddrIndex + 1 ≤ j := add_one_le_of_lt hless
    have hbefore' : ∀ k, am.lastAddrIndex + 1 ≤ k → k < j →
        (unspentOutputsFind unspent (addressGet libs.sodium seed k)).isSome :=
      fun k hk hkj => hbefore k (UInt64.le_trans (UInt64.le_of_lt hnew) hk) hkj
    obtain ⟨hraised, hfirst, hcleared⟩ := amGetNewAddress_raises libs hnew
    obtain ⟨hreached, hbehind⟩ := ih ((seed_amGetAddress _ _ _).trans hseed)
      (by rw [hraised]; exact UInt64.le_refl _) hij' hbefore'
    refine ⟨fun hj => absurd hj (UInt64.not_le.mpr hless), fun _ => ?_⟩
    rcases UInt64.lt_or_eq_of_le hij' with hmore | rfl
    · obtain ⟨hlast, hcursor, hclear⟩ := hbehind (by rwa [hraised])
      exact ⟨hlast, hcursor.trans hfirst, hclear⟩
    · rw [hreached (by rw [hraised]; exact UInt64.le_refl _)]
      exact ⟨hraised, hfirst, hcleared⟩
  | @passed i am _ _ _ hbelow hlast hselected _ ih =>
    have hless : i < j := hnext hij (hseed ▸ hselected)
    have hbelow' : i + 1 ≤ am.lastAddrIndex := add_one_le_of_lt (UInt64.lt_of_le_of_ne hbelow hlast)
    refine ih hseed hbelow' (add_one_le_of_lt hless) fun k hk hkj => hbefore k ?_ hkj
    exact UInt64.le_trans (UInt64.le_of_lt (lt_add_one_of_lt hless)) hk

/-- An index derives the address of a selected entry. -/
def IndexSelected (w : Wallet) (dest : SendFundsOp) (i : UInt64) : Prop :=
  (unspentOutputsFind (consumedOutputs w dest) (addressGet libs.sodium w.addrManager.seed i)).isSome

/-- An index from the cursor on, which is not the last one of all, is there for the remainder. -/
def RemainderFits (w : Wallet) (dest : SendFundsOp) : Prop :=
  NeedsRemainder w.addrManager dest (consumedOutputs w dest) →
    ∃ j, w.addrManager.firstUnspentIdx ≤ j ∧ j.toNat + 1 < 2 ^ 64 ∧ ¬ IndexSelected libs w dest j

/-- The address managers after the outputs were built: it is the one from before, and the remainder, if
any, got one of its indices; or all of its indices from the cursor on were selected, and it has a new
largest one. -/
theorem walletBuildOutputs_addrManager {w : Wallet} {dest dest' : SendFundsOp} {outputs : List TxOutput}
    {am : WalletAm} (horder : w.addrManager.InOrder) (hfits : RemainderFits libs w dest)
    (h : walletBuildOutputs libs w.addrManager dest (consumedOutputs w dest) = some (outputs, am, dest')) :
    (am = w.addrManager ∧ (NeedsRemainder w.addrManager dest (consumedOutputs w dest) →
        ∃ i, w.addrManager.firstUnspentIdx ≤ i ∧ i ≤ w.addrManager.lastAddrIndex ∧
          ¬ IndexSelected libs w dest i)) ∨
      (w.addrManager.lastAddrIndex < am.lastAddrIndex ∧ am.lastAddrIndex.toNat + 1 < 2 ^ 64 ∧
        am.firstUnspentIdx = w.addrManager.firstUnspentIdx ∧
        am.spentAddr.marked am.lastAddrIndex = false ∧
        am.lastAddrIndex.toNat / 8 < am.spentAddr.cap) := by
  rcases searched_of_walletBuildOutputs libs h with ⟨addrIndex, hless, hempty, hsearched, -⟩ | ⟨hnot, rfl, -⟩
  · obtain ⟨fits, hfirst, hlast, hfree⟩ := hfits ⟨hless, hempty, horder⟩
    -- the search stops at the least index which is not selected
    classical
    have hexists : ∃ n, ∃ j : UInt64, j.toNat = n ∧ w.addrManager.firstUnspentIdx ≤ j ∧
        ¬ IndexSelected libs w dest j := ⟨_, fits, rfl, hfirst, hfree⟩
    obtain ⟨j, hn, hj, hjfree⟩ := Nat.find_spec hexists
    have hbefore : ∀ k, w.addrManager.firstUnspentIdx ≤ k → k < j → IndexSelected libs w dest k := by
      intro k hk hkj
      by_contra hkfree
      exact Nat.find_min hexists (hn ▸ UInt64.lt_iff_toNat_lt.mp hkj) ⟨k, rfl, hk, hkfree⟩
    have hjle : j.toNat ≤ fits.toNat := by
      rw [hn]
      exact Nat.find_min' hexists ⟨fits, rfl, hfirst, hfree⟩
    obtain ⟨hkept, hraised⟩ := hsearched.stops_at libs rfl horder hj hbefore
      (Option.not_isSome_iff_eq_none.mp hjfree)
    by_cases hinside : j ≤ w.addrManager.lastAddrIndex
    · exact Or.inl ⟨hkept hinside, fun _ => ⟨j, hj, hinside, hjfree⟩⟩
    · have hless := UInt64.not_le.mp hinside
      obtain ⟨hreached, hcursor, hclear⟩ := hraised hless
      rw [hreached]
      exact Or.inr ⟨hless, by omega, hcursor, hclear⟩
  · exact Or.inl ⟨rfl, fun hneeds => absurd ⟨hneeds.1, hneeds.2.1⟩ hnot⟩

/-! ## Marking the selection -/

/-- An index reads as unspent, whatever lies behind the mask, while the given bits are set one after
another. -/
def StaysUnspent (mask : Bitmask) (indices : List UInt64) (i : UInt64) : Prop :=
  ∀ marked, marked ≠ [] → marked <+: indices → ∀ heap, bitmaskGet heap (mask.setAll marked) i = false

/-- An index inside the mask stays unspent when its bit is clear and not among the given ones. -/
theorem staysUnspent_of_inside {mask : Bitmask} {indices : List UInt64} {i : UInt64}
    (hmarked : mask.marked i = false) (hinside : i.toNat / 8 < mask.cap) (hnot : i ∉ indices) :
    StaysUnspent mask indices i := by
  intro marked _ hstart
  rw [bitmaskGet_eq_false_iff, Bitmask.marked_setAll, hmarked, Bool.false_or, decide_eq_false_iff_not]
  refine ⟨fun hmem => hnot (hstart.subset hmem), ?_⟩
  exact (Bitmask.lt_cap_setAll.mpr (Or.inl hinside)).ne

/-- The marking loop does not move the cursor past an index which stays unspent. -/
theorem firstUnspentIdx_markConsumed_le (heap : UInt64 → Byte) {w : Wallet} {consumed : UnspentOutputs}
    {i : UInt64} (hfirst : w.addrManager.firstUnspentIdx ≤ i)
    (hstays : StaysUnspent w.addrManager.spentAddr (consumed.entries.map UnspentOutputEntry.addrIndex) i) :
    (markConsumed heap w consumed).addrManager.firstUnspentIdx ≤ i := by
  unfold markConsumed
  generalize consumed.entries = l at hstays
  induction l generalizing w with
  | nil => exact hfirst
  | cons elm rest ih =>
    have hmask := (spentAddr_amMarkSpentAddress heap w.addrManager elm.addrIndex).1
    rw [List.foldl_cons]
    apply ih
    · dsimp only
      rcases firstUnspentIdx_amMarkSpentAddress heap w.addrManager elm.addrIndex with hsame | ⟨-, hpassed⟩
      · rw [hsame]
        exact hfirst
      · by_contra hless
        have hspent := hpassed i hfirst (UInt64.not_le.mp hless)
        have hread := hstays [elm.addrIndex] (List.cons_ne_nil _ _)
          (List.cons_prefix_cons.mpr ⟨rfl, List.nil_prefix⟩) heap
        rw [hmask] at hspent
        exact Bool.noConfusion (hspent.symm.trans hread)
    · intro marked _ hstart
      dsimp only
      rw [hmask]
      exact hstays (elm.addrIndex :: marked) (List.cons_ne_nil _ _)
        (List.cons_prefix_cons.mpr ⟨rfl, hstart⟩)

/-- A send which is not refused selects something. -/
theorem consumedOutputs_ne_nil {env : Env} {w refreshed : Wallet} {dest : SendFundsOp} {synced : Bool}
    (hsent : ¬ RefusedBeforeSending libs env w dest)
    (hrefresh : walletRefresh libs env w false = some (synced, refreshed)) :
    (consumedOutputs refreshed dest).entries ≠ [] := by
  have hpasses : PassesBalanceCheck refreshed dest := by
    by_contra hfails
    exact hsent (Or.inr (Or.inr ⟨synced, refreshed, hrefresh, Or.inl (takes_none_iff.mpr hfails)⟩))
  exact List.isEmpty_eq_false_iff.mp hpasses.1

end Goshimmer
