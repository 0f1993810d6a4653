import Goshimmer.Library.Run
import Goshimmer.Wallet.SpentRecords

/-!
# Runs of an address manager

An operation of the manager asks for the address of an index or marks an index. From a new manager
on, the mask reaches over all indices, both cursors stay among them, and all indices before the first
cursor are marked: its search leaves none behind. So the indices which are left unspent are those from
the first cursor on whose bits are clear, whatever lies behind the mask.
-/

namespace Goshimmer

/-- The operations which change a manager. -/
inductive AmOp
  | getAddress (index : UInt64)
  | getNewAddress
  | getFirstUnspentAddress
  | getLastUnspentAddress
  | markSpentAddress (index : UInt64)

/-- The index whose address an operation asks for. -/
def AmOp.asked (am : WalletAm) : AmOp → Option UInt64
  | .getAddress index => some index
  | .getNewAddress => some (am.lastAddrIndex + 1)
  | .getFirstUnspentAddress => some am.firstUnspentIdx
  | .getLastUnspentAddress => some am.lastUnspentIdx
  | .markSpentAddress _ => none

variable (sodium : Sodium)

/-- A manager after one operation, under a heap behind its mask, with the address which is returned. -/
def amStep (am : WalletAm) : (UInt64 → Byte) × AmOp → Option (WalletAm × List Address)
  | (_, .getAddress index) => let (am, addr) := amGetAddress sodium am index; some (am, [addr])
  | (_, .getNewAddress) => let (am, addr) := amGetNewAddress sodium am; some (am, [addr])
  | (_, .getFirstUnspentAddress) => let (am, addr) := amGetFirstUnspentAddress sodium am; some (am, [addr])
  | (_, .getLastUnspentAddress) => let (am, addr) := amGetLastUnspentAddress sodium am; some (am, [addr])
  | (heap, .markSpentAddress index) => some (amMarkSpentAddress heap am index, [])

/-- An operation which asks for the address of an index gets it as any other would. -/
theorem amStep_of_asked {am : WalletAm} {op : AmOp} {index : UInt64} (h : op.asked am = some index)
    (heap : UInt64 → Byte) :
    amStep sodium am (heap, op) = some ((amGetAddress sodium am index).1, [addressGet sodium am.seed index]) := by
  rw [← amGetAddress_snd]
  cases op with
  | markSpentAddress _ => exact absurd h.symm (Option.some_ne_none index)
  | _ =>
    rw [← Option.some.inj h]
    rfl

/-- Every operation asks for the address of one index, or marks an index. -/
theorem amStep_cases {am am' : WalletAm} {heap : UInt64 → Byte} {op : AmOp} {out : List Address}
    (h : amStep sodium am (heap, op) = some (am', out)) :
    (∃ index, op.asked am = some index ∧ am' = (amGetAddress sodium am index).1 ∧
        out = [addressGet sodium am.seed index]) ∨
      (∃ index, op = .markSpentAddress index ∧ am' = amMarkSpentAddress heap am index ∧ out = []) := by
  cases hasked : op.asked am with
  | some index =>
    rw [amStep_of_asked sodium hasked] at h
    obtain ⟨rfl, rfl⟩ := Prod.mk.inj (Option.some.inj h)
    exact Or.inl ⟨index, rfl, rfl, rfl⟩
  | none =>
    cases op with
    | markSpentAddress index =>
      obtain ⟨rfl, rfl⟩ := Prod.mk.inj (Option.some.inj h)
      exact Or.inr ⟨index, rfl, rfl, rfl⟩
    | _ => exact absurd hasked (Option.some_ne_none _)

/-! ## The bits -/

/-- The bits after an address was asked for: a new index is cleared. -/
theorem marked_amGetAddress (am : WalletAm) (index i : UInt64) :
    (amGetAddress sodium am index).1.spentAddr.marked i =
      if am.lastAddrIndex < index ∧ i = index then false else am.spentAddr.marked i := by
  rw [amGetAddress_eq]
  dsimp only
  split
  · next hnew => simp only [marked_bitmaskOp, BitmaskOp.onBit, hnew, true_and]
  · next hnot => simp only [hnot, false_and, if_false]

/-- The bits after an index was marked. -/
theorem marked_amMarkSpentAddress (heap : UInt64 → Byte) (am : WalletAm) (index i : UInt64) :
    (amMarkSpentAddress heap am index).spentAddr.marked i =
      if i = index then true else am.spentAddr.marked i := by
  rw [(spentAddr_amMarkSpentAddress heap am index).1, marked_bitmaskOp]
  rfl

/-- An index is left unspent: it was generated, and its bit reads as clear whatever lies behind the
mask. -/
def WalletAm.Unspent (am : WalletAm) (i : UInt64) : Prop :=
  i ≤ am.lastAddrIndex ∧ ∀ heap, amIsSpentAddress heap am i = false

/-- Under a mask which reaches over all indices the bit decides. -/
theorem WalletAm.Covered.unspent_iff {am : WalletAm} (h : am.Covered) (i : UInt64) :
    am.Unspent i ↔ i ≤ am.lastAddrIndex ∧ am.spentAddr.marked i = false := by
  apply and_congr_right
  intro hi
  constructor
  · intro hclear
    rw [← bitmaskGet_eq_marked (fun _ => 0) _ i (h.div_lt hi)]
    exact hclear fun _ => 0
  · intro hclear heap
    rw [amIsSpentAddress, bitmaskGet_eq_marked heap _ i (h.div_lt hi)]
    exact hclear

/-! ## What every run keeps -/

/-- The mask reaches over all indices, the cursors are among them, and everything before the first one
is marked. -/
structure WalletAm.WellKept (am : WalletAm) : Prop where
  covered : am.Covered
  inOrder : am.InOrder
  lastUnspent_le : am.lastUnspentIdx ≤ am.lastAddrIndex
  before : ∀ i, i < am.firstUnspentIdx → am.spentAddr.marked i = true

/-- No unspent index is before the first cursor. -/
theorem WalletAm.WellKept.first_le {am : WalletAm} (h : am.WellKept) {i : UInt64} (hi : am.Unspent i) :
    am.firstUnspentIdx ≤ i := by
  by_contra hless
  have hmarked := h.before i (UInt64.not_le.mp hless)
  rw [((h.covered.unspent_iff i).mp hi).2] at hmarked
  exact Bool.noConfusion hmarked

/-- Asking for an address keeps this. -/
theorem WalletAm.WellKept.amGetAddress {am : WalletAm} (h : am.WellKept) (index : UInt64) :
    (amGetAddress sodium am index).1.WellKept := by
  refine ⟨h.covered.amGetAddress sodium index, h.inOrder.amGetAddress sodium index, ?_, ?_⟩
  · rw [amGetAddress_eq]
    dsimp only
    have hlast := h.lastUnspent_le
    split
    · next hunspent =>
      split
      · exact UInt64.le_refl _
      · next hnot => exact UInt64.not_lt.mp hnot
    · next hunspent =>
      split
      · next hnew => exact UInt64.le_trans hlast (UInt64.le_of_lt hnew)
      · exact hlast
  · intro i hi
    have hfirst : i < am.firstUnspentIdx := by
      rw [amGetAddress_eq] at hi
      exact hi
    rw [marked_amGetAddress, if_neg, h.before i hfirst]
    rintro ⟨hnew, rfl⟩
    exact UInt64.not_lt.mpr (UInt64.le_of_lt (UInt64.lt_of_lt_of_le hfirst h.inOrder)) hnew

/-- The searches of the cursors, after an index was marked, stop at the indices whose bits are clear. -/
theorem WalletAm.WellKept.decide_bitmaskGet_marking {am : WalletAm} (h : am.WellKept) (heap : UInt64 → Byte)
    (index : UInt64) {i : UInt64} (hi : i ≤ am.lastAddrIndex) :
    decide (bitmaskGet heap (bitmaskOp true am.spentAddr index .set).2 i = false) =
      !(amMarkSpentAddress heap am index).spentAddr.marked i := by
  have hinside : i.toNat / 8 < (bitmaskOp true am.spentAddr index .set).2.cap := by
    rw [cap_bitmaskOp]
    exact lt_max_of_lt_left (h.covered.div_lt hi)
  rw [(spentAddr_amMarkSpentAddress heap am index).1, bitmaskGet_eq_marked heap _ i hinside, Bool.decide_eq_false]

/-- Where the first cursor goes when an index is marked: it stays on another index, it moves to the next
unspent one before the largest, or it stays where it is when there is none. -/
theorem WalletAm.WellKept.firstUnspentIdx_mark {am : WalletAm} (h : am.WellKept) (heap : UInt64 → Byte)
    (index : UInt64) :
    (index ≠ am.firstUnspentIdx ∧
        (amMarkSpentAddress heap am index).firstUnspentIdx = am.firstUnspentIdx) ∨
      (index = am.firstUnspentIdx ∧ ∃ k, (amMarkSpentAddress heap am index).firstUnspentIdx = k ∧
        k < am.lastAddrIndex ∧ (amMarkSpentAddress heap am index).spentAddr.marked k = false ∧
        ∀ i, am.firstUnspentIdx ≤ i → i < k → (amMarkSpentAddress heap am index).spentAddr.marked i = true) ∨
      (index = am.firstUnspentIdx ∧
        (amMarkSpentAddress heap am index).firstUnspentIdx = am.firstUnspentIdx ∧
        ∀ i, am.firstUnspentIdx ≤ i → i < am.lastAddrIndex →
          (amMarkSpentAddress heap am index).spentAddr.marked i = true) := by
  have hcursor : (amMarkSpentAddress heap am index).firstUnspentIdx =
      if index = am.firstUnspentIdx then
        ((indicesBelow am.firstUnspentIdx am.lastAddrIndex).find? fun i =>
          bitmaskGet heap (bitmaskOp true am.spentAddr index .set).2 i = false).getD am.firstUnspentIdx
      else am.firstUnspentIdx := by
    rw [amMarkSpentAddress_eq]
  have hstops : ∀ i, i < am.lastAddrIndex →
      decide (bitmaskGet heap (bitmaskOp true am.spentAddr index .set).2 i = false) =
        !(amMarkSpentAddress heap am index).spentAddr.marked i :=
    fun i hi => h.decide_bitmaskGet_marking heap index (UInt64.le_of_lt hi)
  rw [hcursor]
  by_cases hindex : index = am.firstUnspentIdx
  · rw [if_pos hindex]
    rcases find_indicesBelow_cases am.firstUnspentIdx am.lastAddrIndex am.firstUnspentIdx fun i =>
        decide (bitmaskGet heap (bitmaskOp true am.spentAddr index .set).2 i = false) with
      ⟨k, hfound, hk, hclear, hpassed⟩ | ⟨hfound, hnone⟩
    · rw [hstops k hk, Bool.not_eq_true'] at hclear
      refine Or.inr (Or.inl ⟨hindex, k, hfound, hk, hclear, fun i hfirst hi => ?_⟩)
      have hset := hpassed i hfirst hi
      rw [hstops i (UInt64.lt_trans hi hk), Bool.not_eq_false'] at hset
      exact hset
    · refine Or.inr (Or.inr ⟨hindex, hfound, fun i hfirst hi => ?_⟩)
      have hset := hnone i hfirst hi
      rw [hstops i hi, Bool.not_eq_false'] at hset
      exact hset
  · rw [if_neg hindex]
    exact Or.inl ⟨hindex, rfl⟩

/-- Where the last cursor goes when an index is marked: it stays on another index, it moves to the
unspent one before it but never to 0, or it stays where it is when there is none. -/
theorem WalletAm.WellKept.lastUnspentIdx_mark {am : WalletAm} (h : am.WellKept) (heap : UInt64 → Byte)
    (index : UInt64) :
    (index ≠ am.lastUnspentIdx ∧ (amMarkSpentAddress heap am index).lastUnspentIdx = am.lastUnspentIdx) ∨
      (index = am.lastUnspentIdx ∧ ∃ k, (amMarkSpentAddress heap am index).lastUnspentIdx = k ∧
        k ≠ 0 ∧ k ≤ am.lastUnspentIdx ∧ (amMarkSpentAddress heap am index).spentAddr.marked k = false ∧
        ∀ i, k < i → i ≤ am.lastUnspentIdx → (amMarkSpentAddress heap am index).spentAddr.marked i = true) ∨
      (index = am.lastUnspentIdx ∧
        (amMarkSpentAddress heap am index).lastUnspentIdx = am.lastUnspentIdx ∧
        ∀ i, i ≠ 0 → i ≤ am.lastUnspentIdx →
          (amMarkSpentAddress heap am index).spentAddr.marked i = true) := by
  have hcursor : (amMarkSpentAddress heap am index).lastUnspentIdx =
      if index = am.lastUnspentIdx then
        ((indicesDownFrom am.lastUnspentIdx).find? fun i =>
          bitmaskGet heap (bitmaskOp true am.spentAddr index .set).2 i = false).getD am.lastUnspentIdx
      else am.lastUnspentIdx := by
    rw [amMarkSpentAddress_eq]
  have hstops : ∀ i, i ≤ am.lastUnspentIdx →
      decide (bitmaskGet heap (bitmaskOp true am.spentAddr index .set).2 i = false) =
        !(amMarkSpentAddress heap am index).spentAddr.marked i :=
    fun i hi => h.decide_bitmaskGet_marking heap index (UInt64.le_trans hi h.lastUnspent_le)
  rw [hcursor]
  by_cases hindex : index = am.lastUnspentIdx
  · rw [if_pos hindex]
    rcases find_indicesDownFrom_cases am.lastUnspentIdx am.lastUnspentIdx fun i =>
        decide (bitmaskGet heap (bitmaskOp true am.spentAddr index .set).2 i = false) with
      ⟨k, hfound, hne, hk, hclear, hpassed⟩ | ⟨hfound, hnone⟩
    · rw [hstops k hk, Bool.not_eq_true'] at hclear
      refine Or.inr (Or.inl ⟨hindex, k, hfound, hne, hk, hclear, fun i hbehind hi => ?_⟩)
      have hset := hpassed i hbehind hi
      rw [hstops i hi, Bool.not_eq_false'] at hset
      exact hset
    · refine Or.inr (Or.inr ⟨hindex, hfound, fun i hzero hi => ?_⟩)
      have hset := hnone i hzero hi
      rw [hstops i hi, Bool.not_eq_false'] at hset
      exact hset
  · rw [if_neg hindex]
    exact Or.inl ⟨hindex, rfl⟩

/-- Marking an index keeps this. -/
theorem WalletAm.WellKept.amMarkSpentAddress {am : WalletAm} (h : am.WellKept) (heap : UInt64 → Byte)
    (index : UInt64) : (amMarkSpentAddress heap am index).WellKept := by
  refine ⟨h.covered.amMarkSpentAddress heap index, h.inOrder.amMarkSpentAddress heap index, ?_, ?_⟩
  · rw [lastAddrIndex_amMarkSpentAddress]
    rcases h.lastUnspentIdx_mark heap index with ⟨-, hcursor⟩ | ⟨-, k, hcursor, -, hk, -⟩ | ⟨-, hcursor, -⟩
    · rw [hcursor]
      exact h.lastUnspent_le
    · rw [hcursor]
      exact UInt64.le_trans hk h.lastUnspent_le
    · rw [hcursor]
      exact h.lastUnspent_le
  · intro i hi
    have hbefore : i < am.firstUnspentIdx → (Goshimmer.amMarkSpentAddress heap am index).spentAddr.marked i = true := by
      intro hless
      rw [marked_amMarkSpentAddress, h.before i hless, ite_self]
    rcases h.firstUnspentIdx_mark heap index with ⟨-, hcursor⟩ | ⟨-, k, hcursor, -, -, hpassed⟩ |
        ⟨-, hcursor, -⟩
    · rw [hcursor] at hi
      exact hbefore hi
    · rw [hcursor] at hi
      rcases UInt64.lt_or_le i am.firstUnspentIdx with hless | hfirst
      · exact hbefore hless
      · exact hpassed i hfirst hi
    · rw [hcursor] at hi
      exact hbefore hi

/-- Every step keeps this. -/
theorem WalletAm.WellKept.step {am am' : WalletAm} (h : am.WellKept) {op : (UInt64 → Byte) × AmOp}
    {out : List Address} (hstep : amStep sodium am op = some (am', out)) : am'.WellKept := by
  rcases amStep_cases sodium hstep with ⟨index, -, rfl, -⟩ | ⟨index, -, rfl, -⟩
  · exact h.amGetAddress sodium index
  · exact h.amMarkSpentAddress op.1 index

/-- It holds of a new manager. -/
theorem wellKept_amNew (seed : Seed) : (amNew seed 0 none).WellKept where
  covered := show (0 : UInt64).toNat / 8 < bitmaskNew.cap by decide
  inOrder := UInt64.le_refl _
  lastUnspent_le := UInt64.le_refl _
  before := fun i hi => absurd hi (UInt64.not_lt.mpr UInt64.zero_le)

/-- So it holds in every state of a run from a new manager. -/
theorem wellKept_of_run {seed : Seed} {meets : WalletAm → (UInt64 → Byte) × AmOp → Prop} {am : WalletAm}
    {log : List Address} (hrun : Run (amStep sodium) meets (amNew seed 0 none) am log) : am.WellKept := by
  induction hrun with
  | start => exact wellKept_amNew seed
  | next _ _ hstep ih => exact ih.step sodium hstep

/-- Marking an index which is left unspent takes it away, and nothing else. -/
theorem WalletAm.WellKept.unspent_mark {am : WalletAm} (h : am.WellKept) (heap : UInt64 → Byte)
    (index i : UInt64) : (Goshimmer.amMarkSpentAddress heap am index).Unspent i ↔ am.Unspent i ∧ i ≠ index := by
  rw [(h.amMarkSpentAddress heap index).covered.unspent_iff, h.covered.unspent_iff,
    lastAddrIndex_amMarkSpentAddress, marked_amMarkSpentAddress]
  by_cases hi : i = index
  · simp [hi]
  · simp [hi]

/-- An operation marks only indices which were generated. -/
def AmOp.Legal (am : WalletAm) (op : AmOp) : Prop :=
  ∀ index, op = .markSpentAddress index → index ≤ am.lastAddrIndex

/-- Once an index is marked as well, a single other one is left unspent. -/
def WalletAm.LeavesOnly (am : WalletAm) (marked left : UInt64) : Prop :=
  left ≠ marked ∧ am.Unspent left ∧ ∀ i, am.Unspent i → i = marked ∨ i = left

/-- So it is when that one is all which reads as unspent after the index was marked. -/
theorem WalletAm.WellKept.leavesOnly_iff {am : WalletAm} (h : am.WellKept) (heap : UInt64 → Byte)
    (marked left : UInt64) :
    am.LeavesOnly marked left ↔ ∀ i, (Goshimmer.amMarkSpentAddress heap am marked).Unspent i ↔ i = left := by
  simp only [h.unspent_mark heap marked]
  constructor
  · rintro ⟨hne, hunspent, honly⟩ i
    constructor
    · intro hi
      exact (honly i hi.1).resolve_left hi.2
    · rintro rfl
      exact ⟨hunspent, hne⟩
  · intro hall
    obtain ⟨hunspent, hne⟩ := (hall left).mpr rfl
    refine ⟨hne, hunspent, fun i hi => ?_⟩
    by_cases hmarked : i = marked
    · exact Or.inl hmarked
    · exact Or.inr ((hall i).mp ⟨hi, hmarked⟩)

/-- A manager which generated a second address. -/
def twoGenerated : WalletAm := (amGetNewAddress transparentSodium (amNew (Bytes.zero 32) 0 none)).1

end Goshimmer
