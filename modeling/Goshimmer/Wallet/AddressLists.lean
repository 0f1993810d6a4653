import Goshimmer.Wallet.AddressRuns

/-!
# The lists of addresses

The list of unspent addresses starts at the first cursor, the other two at index 0. Everything before the
cursor is marked in every state of a run, so no unspent address is left out: the unspent and the spent
addresses are two ascending lists without a common index, and merging them gives the list of all
addresses. Every bit which a loop of the manager reads is inside the mask.
-/

namespace Goshimmer

/-- No index which an operation uses or generates is the largest value of the type. -/
def AmOp.InRange (am : WalletAm) (op : AmOp) : Prop :=
  (∀ index, op.asked am = some index → index.toNat + 1 < 2 ^ 64) ∧
    ∀ index, op = .markSpentAddress index → index.toNat + 1 < 2 ^ 64

/-- The indices whose bits the lists of unspent and of spent addresses read. -/
def WalletAm.ListsRead (am : WalletAm) (i : UInt64) : Prop :=
  (am.firstUnspentIdx ≤ i ∧ i ≤ am.lastAddrIndex) ∨ i ≤ am.lastAddrIndex

/-- The indices whose bits the searches of the first and of the last cursor read after an index was
marked. -/
def WalletAm.SearchesRead (am : WalletAm) (i : UInt64) : Prop :=
  (am.firstUnspentIdx ≤ i ∧ i < am.lastAddrIndex) ∨ (i ≠ 0 ∧ i ≤ am.lastUnspentIdx)

variable (sodium : Sodium)

/-- The lists of unspent and spent addresses split the list of all addresses. -/
structure SplitsAddresses (am : WalletAm) (all unspent spent : List AddressT) : Prop where
  /-- The list of all addresses has the indices from 0 up to the largest one. -/
  indices : all.map AddressT.index = (List.range (am.lastAddrIndex.toNat + 1)).map UInt64.ofNat
  unspent_ascends : (unspent.map AddressT.index).Pairwise (· < ·)
  spent_ascends : (spent.map AddressT.index).Pairwise (· < ·)
  disjoint : ∀ i ∈ unspent.map AddressT.index, i ∉ spent.map AddressT.index
  merged : (unspent.merge spent fun a b => decide (a.index ≤ b.index)) = all
  derived : ∀ a ∈ all, a.addr = addressGet sodium am.seed a.index
  /-- No index which reads as unspent is left out. -/
  complete : ∀ heap, ∀ i ≤ am.lastAddrIndex, amIsSpentAddress heap am i = false →
    i ∈ unspent.map AddressT.index

/-- The indices of a list of addresses. -/
theorem map_index_amAddressList (am : WalletAm) (indices : List UInt64) :
    (amAddressList sodium am indices).map AddressT.index = indices := by
  rw [amAddressList, List.map_map]
  exact List.map_id _

/-- Every bit which the lists read is inside the mask. -/
theorem WalletAm.WellKept.listsRead_lt_cap {am : WalletAm} (h : am.WellKept) {i : UInt64}
    (hi : am.ListsRead i) : i.toNat / 8 < am.spentAddr.cap := by
  apply h.covered.div_lt
  rcases hi with ⟨-, hlast⟩ | hlast
  · exact hlast
  · exact hlast

/-- Every bit which the searches read is inside the mask which holds the marked index. -/
theorem WalletAm.WellKept.searchesRead_lt_cap {am : WalletAm} (h : am.WellKept) {i : UInt64}
    (hi : am.SearchesRead i) (index : UInt64) :
    i.toNat / 8 < (bitmaskOp true am.spentAddr index .set).2.cap := by
  rw [cap_bitmaskOp]
  apply lt_max_of_lt_left
  apply h.covered.div_lt
  rcases hi with ⟨-, hless⟩ | ⟨-, hunspent⟩
  · exact UInt64.le_of_lt hless
  · exact UInt64.le_trans hunspent h.lastUnspent_le

/-- The list of unspent addresses holds all indices whose bits are clear. -/
theorem WalletAm.WellKept.amUnspentAddresses {am : WalletAm} (h : am.WellKept) {indices : List UInt64}
    (hindices : indicesUpTo 0 am.lastAddrIndex = some indices) (heap : UInt64 → Byte) :
    Goshimmer.amUnspentAddresses sodium heap am =
      some (amAddressList sodium am (indices.filter fun i => !am.spentAddr.marked i)) := by
  rw [indicesUpTo_zero h.inOrder] at hindices
  obtain ⟨later, hlater, rfl⟩ := Option.map_eq_some_iff.mp hindices
  have hread : (later.filter fun i => !amIsSpentAddress heap am i) =
      later.filter fun i => !am.spentAddr.marked i := by
    apply List.filter_congr
    intro i hi
    rw [amIsSpentAddress, bitmaskGet_eq_marked heap _ i
      (h.covered.div_lt ((mem_of_indicesUpTo hlater i).mp hi).2)]
  have hbefore : ((indicesBelow 0 am.firstUnspentIdx).filter fun i => !am.spentAddr.marked i) = [] := by
    rw [List.filter_eq_nil_iff]
    intro i hi
    rw [h.before i (mem_indicesBelow.mp hi).2]
    decide
  rw [Goshimmer.amUnspentAddresses, hlater, Option.map_some, hread, List.filter_append, hbefore,
    List.nil_append]

/-- The list of spent addresses holds all indices whose bits are set. -/
theorem WalletAm.WellKept.amSpentAddresses {am : WalletAm} (h : am.WellKept) {indices : List UInt64}
    (hindices : indicesUpTo 0 am.lastAddrIndex = some indices) (heap : UInt64 → Byte) :
    Goshimmer.amSpentAddresses sodium heap am =
      some (amAddressList sodium am (indices.filter am.spentAddr.marked)) := by
  have hread : indices.filter (amIsSpentAddress heap am) = indices.filter am.spentAddr.marked := by
    apply List.filter_congr
    intro i hi
    exact bitmaskGet_eq_marked heap _ i (h.covered.div_lt ((mem_of_indicesUpTo hindices i).mp hi).2)
  rw [Goshimmer.amSpentAddresses, hindices, Option.map_some, hread]

/-- The two lists split the list of all addresses. -/
theorem WalletAm.WellKept.splitsAddresses {am : WalletAm} (h : am.WellKept) {indices : List UInt64}
    (hindices : indicesUpTo 0 am.lastAddrIndex = some indices) :
    SplitsAddresses sodium am (amAddressList sodium am indices)
      (amAddressList sodium am (indices.filter fun i => !am.spentAddr.marked i))
      (amAddressList sodium am (indices.filter am.spentAddr.marked)) where
  indices := by
    rw [map_index_amAddressList]
    unfold indicesUpTo at hindices
    split at hindices
    · exact absurd hindices.symm (Option.some_ne_none _)
    · rw [← Option.some.inj hindices, UInt64.toNat_zero, Nat.sub_zero, ← List.range_eq_range']
  unspent_ascends := by
    rw [map_index_amAddressList]
    exact (pairwise_lt_of_indicesUpTo hindices).filter _
  spent_ascends := by
    rw [map_index_amAddressList]
    exact (pairwise_lt_of_indicesUpTo hindices).filter _
  disjoint := by
    intro i hunspent hspent
    rw [map_index_amAddressList, List.mem_filter] at hunspent hspent
    rw [hspent.2] at hunspent
    exact Bool.noConfusion hunspent.2
  merged := by
    have hmerged := merge_filter_not_filter (pairwise_lt_of_indicesUpTo hindices) am.spentAddr.marked
    have hmapped := @List.map_merge _ _ (fun i => (⟨i, addressGet sodium am.seed i⟩ : AddressT))
      (fun i j => decide (i ≤ j)) (fun a b => decide (a.index ≤ b.index))
      (indices.filter fun i => !am.spentAddr.marked i) (indices.filter am.spentAddr.marked) fun _ _ _ _ => rfl
    rw [hmerged] at hmapped
    exact hmapped.symm
  derived := by
    intro a ha
    obtain ⟨i, -, rfl⟩ := List.mem_map.mp ha
    rfl
  complete := by
    intro heap i hi hclear
    rw [amIsSpentAddress, bitmaskGet_eq_marked heap _ i (h.covered.div_lt hi)] at hclear
    rw [map_index_amAddressList, List.mem_filter, mem_of_indicesUpTo hindices, hclear]
    exact ⟨⟨UInt64.zero_le, hi⟩, rfl⟩

/-- No index reaches the largest value of the type in a run whose operations stay in range. -/
theorem toNat_lastAddrIndex_of_run {seed : Seed} {am : WalletAm} {log : List Address}
    (hrun : Run (amStep sodium) (fun am op => op.2.InRange am) (amNew seed 0 none) am log) :
    am.lastAddrIndex.toNat + 1 < 2 ^ 64 := by
  induction hrun with
  | start => exact show (0 : UInt64).toNat + 1 < 2 ^ 64 by decide
  | next _ hrange hstep ih =>
    rcases amStep_cases sodium hstep with ⟨index, hasked, rfl, -⟩ | ⟨index, -, rfl, -⟩
    · rw [lastAddrIndex_amGetAddress]
      split
      · exact hrange.1 index hasked
      · exact ih
    · rw [lastAddrIndex_amMarkSpentAddress]
      exact ih

/-- In every state of a run from a new manager, whose operations stay in range, the lists of unspent and
spent addresses split the list of all addresses, whatever lies behind the mask, and every bit which is
read is inside it. -/
theorem address_lists_split {seed : Seed} {am : WalletAm} {log : List Address}
    (hrun : Run (amStep sodium) (fun am op => op.2.InRange am) (amNew seed 0 none) am log) :
    (∃ all unspent spent, amAddresses sodium am = some all ∧
        (∀ heap, amUnspentAddresses sodium heap am = some unspent) ∧
        (∀ heap, amSpentAddresses sodium heap am = some spent) ∧
        SplitsAddresses sodium am all unspent spent) ∧
      (∀ i, am.ListsRead i → i.toNat / 8 < am.spentAddr.cap) ∧
      ∀ index i, am.SearchesRead i → i.toNat / 8 < (bitmaskOp true am.spentAddr index .set).2.cap := by
  have hkept := wellKept_of_run sodium hrun
  obtain ⟨indices, hindices⟩ := exists_indicesUpTo 0 (toNat_lastAddrIndex_of_run sodium hrun)
  refine ⟨⟨_, _, _, ?_, hkept.amUnspentAddresses sodium hindices, hkept.amSpentAddresses sodium hindices,
    hkept.splitsAddresses sodium hindices⟩, fun _ hi => hkept.listsRead_lt_cap hi,
    fun index _ hi => hkept.searchesRead_lt_cap hi index⟩
  rw [amAddresses, hindices, Option.map_some]

/-- A manager with two addresses, the first of which was spent. -/
def firstSpent : WalletAm := amMarkSpentAddress (fun _ => 0) twoGenerated 0

/-- Its lists have an address each. -/
theorem address_lists_split_firstSpent :
    (∃ all unspent spent, amAddresses transparentSodium firstSpent = some all ∧
        (∀ heap, amUnspentAddresses transparentSodium heap firstSpent = some unspent) ∧
        (∀ heap, amSpentAddresses transparentSodium heap firstSpent = some spent) ∧
        SplitsAddresses transparentSodium firstSpent all unspent spent) ∧
      (∀ i, firstSpent.ListsRead i → i.toNat / 8 < firstSpent.spentAddr.cap) ∧
      ∀ index i, firstSpent.SearchesRead i →
        i.toNat / 8 < (bitmaskOp true firstSpent.spentAddr index .set).2.cap := by
  have hnew : AmOp.InRange (amNew (Bytes.zero 32) 0 none) .getNewAddress := by
    constructor
    · intro index hasked
      rw [← Option.some.inj hasked]
      decide
    · intro index hop
      cases hop
  have hgenerated : amStep transparentSodium (amNew (Bytes.zero 32) 0 none) (fun _ => 0, .getNewAddress) =
      some (twoGenerated, [addressGet transparentSodium (Bytes.zero 32) 1]) :=
    amStep_of_asked transparentSodium rfl fun _ => 0
  have hmark : AmOp.InRange twoGenerated (.markSpentAddress 0) := by
    constructor
    · intro index hasked
      cases hasked
    · intro index hop
      rw [← AmOp.markSpentAddress.inj hop]
      decide
  have hmarked : amStep transparentSodium twoGenerated (fun _ => 0, .markSpentAddress 0) =
      some (firstSpent, []) := rfl
  exact address_lists_split transparentSodium (.next (Run.single hnew hgenerated) hmark hmarked)

end Goshimmer
