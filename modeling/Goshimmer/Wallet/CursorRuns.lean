import Goshimmer.Wallet.AddressRuns

/-!
# The cursors along runs

The first cursor should be on the least unspent index and the last cursor on the greatest one. The search
for the first stops before the largest index, and it does not run when a new index follows on spent ones.
The search for the last leaves out index 0, and asking for an address takes the last cursor to its index
without a look at the mask. In all states of a run the cursors are right exactly when no step meets one
of these cases.
-/

namespace Goshimmer

/-- A property which a step which asks for an address has after it under one condition, and a step which
marks an index unless that is a cursor under another one. -/
theorem iff_of_amStep {sodium : Sodium} {right : WalletAm → Prop} {asks : UInt64 → Prop} {cursor : UInt64}
    {keeps : Prop} {am am' : WalletAm} {op : (UInt64 → Byte) × AmOp} {out : List Address}
    (hask : ∀ index, right (amGetAddress sodium am index).1 ↔ asks index)
    (hmark : ∀ heap index, right (amMarkSpentAddress heap am index) ↔ (index = cursor → keeps))
    (hstep : amStep sodium am op = some (am', out)) :
    right am' ↔ (∀ index, op.2.asked am = some index → asks index) ∧ (op.2 = .markSpentAddress cursor → keeps) := by
  rcases amStep_cases sodium hstep with ⟨index, hasked, rfl, -⟩ | ⟨index, hop, rfl, -⟩
  · rw [hask, hasked]
    constructor
    · intro hcondition
      refine ⟨fun other hother => Option.some.inj hother ▸ hcondition, fun hop => ?_⟩
      rw [hop] at hasked
      exact absurd hasked.symm (Option.some_ne_none index)
    · exact fun hcondition => hcondition.1 index rfl
  · rw [hmark, hop]
    constructor
    · intro hcondition
      refine ⟨fun other hother => absurd hother.symm (Option.some_ne_none other), fun hsame => ?_⟩
      exact hcondition (AmOp.markSpentAddress.inj hsame)
    · exact fun hcondition hindex => hcondition.2 (hindex ▸ rfl)

/-! ## The first cursor -/

/-- The first cursor is on the least unspent index, if any index is unspent. -/
def WalletAm.FirstCursorRight (am : WalletAm) : Prop :=
  (∃ i, am.Unspent i) → am.Unspent am.firstUnspentIdx ∧ ∀ i, am.Unspent i → am.firstUnspentIdx ≤ i

/-- The steps which keep the first cursor right: a new index comes while another one is unspent, and
marking the cursor does not leave the largest index alone. -/
def KeepsFirstCursor (am : WalletAm) (op : AmOp) : Prop :=
  (∀ index, op.asked am = some index → am.lastAddrIndex < index → ∃ i, am.Unspent i) ∧
    (op = .markSpentAddress am.firstUnspentIdx → ¬ am.LeavesOnly am.firstUnspentIdx am.lastAddrIndex)

/-- The bit of the first cursor decides whether it is right. -/
theorem WalletAm.WellKept.firstCursorRight_iff {am : WalletAm} (h : am.WellKept) :
    am.FirstCursorRight ↔ ∀ i, am.Unspent i → am.spentAddr.marked am.firstUnspentIdx = false := by
  constructor
  · intro hright i hi
    exact ((h.covered.unspent_iff _).mp (hright ⟨i, hi⟩).1).2
  · rintro hclear ⟨i, hi⟩
    exact ⟨(h.covered.unspent_iff _).mpr ⟨h.inOrder, hclear i hi⟩, fun j hj => h.first_le hj⟩

/-- Asking for an address keeps the first cursor right exactly when it does not follow on spent indices
only. -/
theorem WalletAm.WellKept.firstCursorRight_ask (sodium : Sodium) {am : WalletAm} (h : am.WellKept)
    (hright : am.FirstCursorRight) (index : UInt64) :
    (Goshimmer.amGetAddress sodium am index).1.FirstCursorRight ↔
      (am.lastAddrIndex < index → ∃ i, am.Unspent i) := by
  have hkept := h.amGetAddress sodium index
  have hclear := h.firstCursorRight_iff.mp hright
  have hfirst : (Goshimmer.amGetAddress sodium am index).1.spentAddr.marked am.firstUnspentIdx =
      am.spentAddr.marked am.firstUnspentIdx := by
    rw [marked_amGetAddress, if_neg]
    rintro ⟨hnew, hsame⟩
    exact UInt64.not_lt.mpr h.inOrder (hsame ▸ hnew)
  rw [hkept.firstCursorRight_iff]
  have hcursor : (Goshimmer.amGetAddress sodium am index).1.firstUnspentIdx = am.firstUnspentIdx := by
    rw [amGetAddress_eq]
  rw [hcursor, hfirst]
  constructor
  · intro hright' hnew
    refine ⟨am.firstUnspentIdx, (h.covered.unspent_iff _).mpr ⟨h.inOrder, hright' index ?_⟩⟩
    rw [hkept.covered.unspent_iff, lastAddrIndex_amGetAddress, if_pos hnew, marked_amGetAddress,
      if_pos ⟨hnew, rfl⟩]
    exact ⟨UInt64.le_refl _, rfl⟩
  · intro hcondition i hi
    by_cases hnew : am.lastAddrIndex < index
    · obtain ⟨j, hj⟩ := hcondition hnew
      exact hclear j hj
    · rw [hkept.covered.unspent_iff, lastAddrIndex_amGetAddress, if_neg hnew, marked_amGetAddress,
        if_neg fun hboth => hnew hboth.1, ← h.covered.unspent_iff] at hi
      exact hclear i hi

/-- Marking an index keeps the first cursor right exactly when it does not leave the largest index
alone. -/
theorem WalletAm.WellKept.firstCursorRight_mark {am : WalletAm} (h : am.WellKept)
    (hright : am.FirstCursorRight) (heap : UInt64 → Byte) (index : UInt64) :
    (Goshimmer.amMarkSpentAddress heap am index).FirstCursorRight ↔
      (index = am.firstUnspentIdx → ¬ am.LeavesOnly am.firstUnspentIdx am.lastAddrIndex) := by
  have hclear := h.firstCursorRight_iff.mp hright
  have hbits := (h.amMarkSpentAddress heap index).covered.unspent_iff
  rw [(h.amMarkSpentAddress heap index).firstCursorRight_iff]
  rcases h.firstUnspentIdx_mark heap index with ⟨hother, hcursor⟩ | ⟨rfl, k, hcursor, hk, hfound, -⟩ |
      ⟨rfl, hcursor, hpassed⟩
  · rw [hcursor, marked_amMarkSpentAddress, if_neg (Ne.symm hother)]
    exact ⟨fun _ hindex => absurd hindex hother,
      fun _ i hi => hclear i ((h.unspent_mark heap index i).mp hi).1⟩
  · rw [hcursor, h.leavesOnly_iff heap]
    refine ⟨fun _ _ honly => ?_, fun _ _ _ => hfound⟩
    have hunspent := (hbits k).mpr
      ⟨by rw [lastAddrIndex_amMarkSpentAddress]; exact UInt64.le_of_lt hk, hfound⟩
    exact UInt64.lt_irrefl _ ((honly k).mp hunspent ▸ hk)
  · -- the search found nothing, so the cursor is on a spent index
    have hset : (Goshimmer.amMarkSpentAddress heap am am.firstUnspentIdx).spentAddr.marked am.firstUnspentIdx =
        true := by
      rw [marked_amMarkSpentAddress, if_pos rfl]
    have hlargest : ∀ i, (Goshimmer.amMarkSpentAddress heap am am.firstUnspentIdx).Unspent i →
        i = am.lastAddrIndex := by
      intro i hi
      have hbefore := ((h.unspent_mark heap _ i).mp hi).1
      rcases UInt64.lt_or_eq_of_le hbefore.1 with hless | hsame
      · have hmarked := hpassed i (h.first_le hbefore) hless
        rw [((hbits i).mp hi).2] at hmarked
        exact Bool.noConfusion hmarked
      · exact hsame
    rw [hcursor, hset, h.leavesOnly_iff heap]
    constructor
    · intro hnone _ honly
      exact Bool.noConfusion (hnone am.lastAddrIndex ((honly _).mpr rfl))
    · intro hcondition i hi
      refine absurd (fun j => ⟨hlargest j, ?_⟩) (hcondition rfl)
      rintro rfl
      exact hlargest i hi ▸ hi

/-- In all states along any operations on a new manager the first cursor is on the least unspent index exactly
when every step keeps it right. -/
theorem first_cursor_right_iff (sodium : Sodium) (seed : Seed) {ops : List ((UInt64 → Byte) × AmOp)}
    (hlegal : StepsAlong (amStep sodium) (fun am op _ => op.2.Legal am) (amNew seed 0 none) ops) :
    HoldsAlong (amStep sodium) WalletAm.FirstCursorRight (amNew seed 0 none) ops ↔
      StepsAlong (amStep sodium) (fun am op _ => KeepsFirstCursor am op.2) (amNew seed 0 none) ops := by
  have hinitial : (amNew seed 0 none).FirstCursorRight := by
    rw [(wellKept_amNew seed).firstCursorRight_iff]
    exact fun _ _ => marked_bitmaskNew _
  apply Iff.trans _ (and_iff_right hinitial)
  refine HoldsAlong.iff_of_step (amStep sodium) WalletAm.WellKept (fun _ => wellKept_amNew seed) ?_ ?_ hlegal
  · exact fun hkept _ hstep => hkept.step sodium hstep
  · intro am op next hkept hright _ hstep
    exact iff_of_amStep (hkept.firstCursorRight_ask sodium hright) (hkept.firstCursorRight_mark hright) hstep

/-- Generating addresses, and then marking one of the indices. -/
def generateAndMark (addresses : ℕ) (index : UInt64) : List ((UInt64 → Byte) × AmOp) :=
  List.replicate addresses (fun _ => 0, .getNewAddress) ++ [(fun _ => 0, .markSpentAddress index)]

/-- Generating an address is a legal step. -/
theorem legal_getNewAddress (am : WalletAm) : AmOp.Legal am .getNewAddress := fun _ hop => AmOp.noConfusion hop

/-- Marking an index which was generated is one. -/
theorem legal_markSpentAddress {am : WalletAm} {index : UInt64} (h : index ≤ am.lastAddrIndex) :
    AmOp.Legal am (.markSpentAddress index) := by
  intro other hop
  rw [← AmOp.markSpentAddress.inj hop]
  exact h

/-- The new address of a manager. -/
theorem amStep_getNewAddress (am : WalletAm) :
    amStep transparentSodium am (fun _ => 0, .getNewAddress) =
      some ((amGetNewAddress transparentSodium am).1,
        [addressGet transparentSodium am.seed (am.lastAddrIndex + 1)]) :=
  amStep_of_asked transparentSodium rfl fun _ => 0

/-- The two steps which generate one address and mark an index. -/
theorem stepsAlong_generateAndMark_one (p : WalletAm → (UInt64 → Byte) × AmOp → WalletAm × List Address → Prop)
    (index : UInt64) :
    StepsAlong (amStep transparentSodium) p (amNew (Bytes.zero 32) 0 none) (generateAndMark 1 index) ↔
      p (amNew (Bytes.zero 32) 0 none) (fun _ => 0, .getNewAddress)
          (twoGenerated, [addressGet transparentSodium (Bytes.zero 32) 1]) ∧
        p twoGenerated (fun _ => 0, .markSpentAddress index)
          (amMarkSpentAddress (fun _ => 0) twoGenerated index, []) ∧ True := by
  rw [generateAndMark, List.replicate_one, List.singleton_append,
    StepsAlong.cons_iff _ (amStep_getNewAddress _), StepsAlong.cons_iff _ rfl]
  exact Iff.rfl

/-- They are legal for index 0 and index 1. -/
theorem legal_generateAndMark_one {index : UInt64} (h : index ≤ 1) :
    StepsAlong (amStep transparentSodium) (fun am op _ => op.2.Legal am) (amNew (Bytes.zero 32) 0 none)
      (generateAndMark 1 index) :=
  (stepsAlong_generateAndMark_one _ index).mpr ⟨legal_getNewAddress _, legal_markSpentAddress h, trivial⟩

/-- A manager with two addresses is well kept. -/
theorem wellKept_twoGenerated : twoGenerated.WellKept :=
  (wellKept_amNew (Bytes.zero 32)).amGetAddress transparentSodium 1

/-- Generating two addresses and marking the first of the three takes the first cursor to the second. -/
theorem first_cursor_right_iff_three :
    HoldsAlong (amStep transparentSodium) WalletAm.FirstCursorRight (amNew (Bytes.zero 32) 0 none)
      (generateAndMark 2 0) := by
  have hthree := wellKept_twoGenerated.amGetAddress transparentSodium 2
  have hlegal : StepsAlong (amStep transparentSodium) (fun am op _ => op.2.Legal am)
      (amNew (Bytes.zero 32) 0 none) (generateAndMark 2 0) := by
    change StepsAlong _ _ _ [_, _, _]
    rw [StepsAlong.cons_iff _ (amStep_getNewAddress _), StepsAlong.cons_iff _ (amStep_getNewAddress _),
      StepsAlong.cons_iff _ rfl]
    exact ⟨legal_getNewAddress _, legal_getNewAddress _, legal_markSpentAddress UInt64.zero_le, trivial⟩
  apply (first_cursor_right_iff transparentSodium _ hlegal).mpr
  change StepsAlong _ _ _ [_, _, _]
  rw [StepsAlong.cons_iff _ (amStep_getNewAddress _), StepsAlong.cons_iff _ (amStep_getNewAddress _),
    StepsAlong.cons_iff _ rfl]
  refine ⟨⟨fun _ _ _ => ⟨0, ?_⟩, fun hop => (by cases hop)⟩, ⟨fun _ _ _ => ⟨0, ?_⟩, fun hop => (by cases hop)⟩,
    ⟨fun _ hasked => (by cases hasked), fun _ honly => ?_⟩, trivial⟩
  · rw [(wellKept_amNew (Bytes.zero 32)).covered.unspent_iff]
    decide
  · exact (wellKept_twoGenerated.covered.unspent_iff 0).mpr (by decide)
  · have hother := honly.2.2 1 ((hthree.covered.unspent_iff 1).mpr (by decide))
    revert hother
    decide

/-- Spending the first of two addresses leaves the first cursor on it. -/
theorem first_cursor_stays_on_spent :
    ¬ ∀ (sodium : Sodium) (seed : Seed) (ops : List ((UInt64 → Byte) × AmOp)),
      StepsAlong (amStep sodium) (fun am op _ => op.2.Legal am) (amNew seed 0 none) ops →
        HoldsAlong (amStep sodium) WalletAm.FirstCursorRight (amNew seed 0 none) ops := by
  intro h
  have hright := ((stepsAlong_generateAndMark_one _ 0).mp
    (h _ _ _ (legal_generateAndMark_one UInt64.zero_le)).2).2.1
  have hkept := wellKept_twoGenerated.amMarkSpentAddress (fun _ => 0) 0
  have hclear := hkept.firstCursorRight_iff.mp hright 1
  rw [hkept.covered.unspent_iff] at hclear
  revert hclear
  decide

/-! ## The last cursor -/

variable (libs : Libraries)

/-- The last cursor is on the greatest unspent index, if any index is unspent, and the wallet hands out the
address of an unspent index to receive on. -/
def WalletAm.LastCursorRight (am : WalletAm) : Prop :=
  (∃ i, am.Unspent i) → (am.Unspent am.lastUnspentIdx ∧ ∀ i, am.Unspent i → i ≤ am.lastUnspentIdx) ∧
    ∀ w : Wallet, w.addrManager = am →
      ∃ i, am.Unspent i ∧ (walletReceiveAddress libs w).2 = addressGet libs.sodium am.seed i

/-- The steps which keep the last cursor right: an address which is asked for again is not behind the
cursor while any index is unspent, and marking the cursor does not leave index 0 alone. -/
def KeepsLastCursor (am : WalletAm) (op : AmOp) : Prop :=
  (∀ index, op.asked am = some index → am.lastUnspentIdx < index → index ≤ am.lastAddrIndex →
      ∀ i, ¬ am.Unspent i) ∧
    (op = .markSpentAddress am.lastUnspentIdx → ¬ am.LeavesOnly am.lastUnspentIdx 0)

/-- The bit of the last cursor and the bits behind it decide whether it is right. -/
theorem WalletAm.WellKept.lastCursorRight_iff {am : WalletAm} (h : am.WellKept) :
    am.LastCursorRight libs ↔
      ∀ i, am.Unspent i → am.spentAddr.marked am.lastUnspentIdx = false ∧ i ≤ am.lastUnspentIdx := by
  constructor
  · intro hright i hi
    obtain ⟨⟨hunspent, hgreatest⟩, -⟩ := hright ⟨i, hi⟩
    exact ⟨((h.covered.unspent_iff _).mp hunspent).2, hgreatest i hi⟩
  · rintro hclear ⟨i, hi⟩
    have hunspent : am.Unspent am.lastUnspentIdx :=
      (h.covered.unspent_iff _).mpr ⟨h.lastUnspent_le, (hclear i hi).1⟩
    refine ⟨⟨hunspent, fun j hj => (hclear j hj).2⟩, fun w hw => ⟨am.lastUnspentIdx, hunspent, ?_⟩⟩
    rw [← hw]
    exact amGetAddress_snd libs.sodium w.addrManager w.addrManager.lastUnspentIdx

/-- Asking for an address keeps the last cursor right exactly when it is a new one, or the cursor is not
before it, or every index is spent. -/
theorem WalletAm.WellKept.lastCursorRight_ask {am : WalletAm} (h : am.WellKept)
    (hright : am.LastCursorRight libs) (index : UInt64) :
    (Goshimmer.amGetAddress libs.sodium am index).1.LastCursorRight libs ↔
      (am.lastUnspentIdx < index → index ≤ am.lastAddrIndex → ∀ i, ¬ am.Unspent i) := by
  have hkept := h.amGetAddress libs.sodium index
  have hclear := (h.lastCursorRight_iff libs).mp hright
  have hcursor : (Goshimmer.amGetAddress libs.sodium am index).1.lastUnspentIdx =
      if am.lastUnspentIdx < index then index else am.lastUnspentIdx := by
    rw [amGetAddress_eq]
  rw [hkept.lastCursorRight_iff, hcursor]
  by_cases hnew : am.lastAddrIndex < index
  · have hbehind : am.lastUnspentIdx < index := UInt64.lt_of_le_of_lt h.lastUnspent_le hnew
    rw [if_pos hbehind, marked_amGetAddress, if_pos ⟨hnew, rfl⟩]
    refine ⟨fun _ _ hold => absurd hnew (UInt64.not_lt.mpr hold), fun _ i hi => ⟨rfl, ?_⟩⟩
    have hlast := hi.1
    rw [lastAddrIndex_amGetAddress, if_pos hnew] at hlast
    exact hlast
  · have hsame : ∀ i, (Goshimmer.amGetAddress libs.sodium am index).1.Unspent i ↔ am.Unspent i := by
      intro i
      rw [hkept.covered.unspent_iff, lastAddrIndex_amGetAddress, if_neg hnew, marked_amGetAddress,
        if_neg fun hboth => hnew hboth.1, ← h.covered.unspent_iff]
    simp only [hsame, marked_amGetAddress, hnew, false_and, if_false]
    by_cases hbehind : am.lastUnspentIdx < index
    · rw [if_pos hbehind]
      constructor
      · intro hright' _ hold i hi
        have hunspent := (h.covered.unspent_iff index).mpr ⟨hold, (hright' i hi).1⟩
        exact UInt64.not_le.mpr hbehind (hclear index hunspent).2
      · exact fun hnone i hi => absurd hi (hnone hbehind (UInt64.not_lt.mp hnew) i)
    · rw [if_neg hbehind]
      exact ⟨fun _ hless => absurd hless hbehind, fun _ => hclear⟩

/-- Marking an index keeps the last cursor right exactly when it does not leave index 0 alone. -/
theorem WalletAm.WellKept.lastCursorRight_mark {am : WalletAm} (h : am.WellKept)
    (hright : am.LastCursorRight libs) (heap : UInt64 → Byte) (index : UInt64) :
    (Goshimmer.amMarkSpentAddress heap am index).LastCursorRight libs ↔
      (index = am.lastUnspentIdx → ¬ am.LeavesOnly am.lastUnspentIdx 0) := by
  have hclear := (h.lastCursorRight_iff libs).mp hright
  have hbits := (h.amMarkSpentAddress heap index).covered.unspent_iff
  rw [(h.amMarkSpentAddress heap index).lastCursorRight_iff]
  rcases h.lastUnspentIdx_mark heap index with ⟨hother, hcursor⟩ | ⟨rfl, k, hcursor, hne, hk, hfound, hpassed⟩ |
      ⟨rfl, hcursor, hpassed⟩
  · rw [hcursor, marked_amMarkSpentAddress, if_neg (Ne.symm hother)]
    exact ⟨fun _ hindex => absurd hindex hother,
      fun _ i hi => hclear i ((h.unspent_mark heap index i).mp hi).1⟩
  · rw [hcursor, h.leavesOnly_iff heap]
    constructor
    · intro _ _ honly
      have hunspent := (hbits k).mpr
        ⟨by rw [lastAddrIndex_amMarkSpentAddress]; exact UInt64.le_trans hk h.lastUnspent_le, hfound⟩
      exact hne ((honly k).mp hunspent)
    · intro _ i hi
      refine ⟨hfound, UInt64.not_lt.mp fun hless => ?_⟩
      have hmarked := hpassed i hless (hclear i ((h.unspent_mark heap _ i).mp hi).1).2
      rw [((hbits i).mp hi).2] at hmarked
      exact Bool.noConfusion hmarked
  · -- the search found nothing, so the cursor is on a spent index
    have hset : (Goshimmer.amMarkSpentAddress heap am am.lastUnspentIdx).spentAddr.marked am.lastUnspentIdx =
        true := by
      rw [marked_amMarkSpentAddress, if_pos rfl]
    have hzero : ∀ i, (Goshimmer.amMarkSpentAddress heap am am.lastUnspentIdx).Unspent i → i = 0 := by
      intro i hi
      by_contra hne
      have hmarked := hpassed i hne (hclear i ((h.unspent_mark heap _ i).mp hi).1).2
      rw [((hbits i).mp hi).2] at hmarked
      exact Bool.noConfusion hmarked
    rw [hcursor, hset, h.leavesOnly_iff heap]
    constructor
    · intro hnone _ honly
      exact Bool.noConfusion (hnone 0 ((honly _).mpr rfl)).1
    · intro hcondition i hi
      refine absurd (fun j => ⟨hzero j, ?_⟩) (hcondition rfl)
      rintro rfl
      exact hzero i hi ▸ hi

/-- In all states along any operations on a new manager the last cursor is on the greatest unspent index exactly
when every step keeps it right. -/
theorem last_cursor_right_iff (seed : Seed) {ops : List ((UInt64 → Byte) × AmOp)}
    (hlegal : StepsAlong (amStep libs.sodium) (fun am op _ => op.2.Legal am) (amNew seed 0 none) ops) :
    HoldsAlong (amStep libs.sodium) (WalletAm.LastCursorRight libs) (amNew seed 0 none) ops ↔
      StepsAlong (amStep libs.sodium) (fun am op _ => KeepsLastCursor am op.2) (amNew seed 0 none) ops := by
  have hinitial : (amNew seed 0 none).LastCursorRight libs := by
    rw [(wellKept_amNew seed).lastCursorRight_iff]
    exact fun i hi => ⟨marked_bitmaskNew _, hi.1⟩
  apply Iff.trans _ (and_iff_right hinitial)
  refine HoldsAlong.iff_of_step (amStep libs.sodium) WalletAm.WellKept (fun _ => wellKept_amNew seed) ?_ ?_ hlegal
  · exact fun hkept _ hstep => hkept.step libs.sodium hstep
  · intro am op next hkept hright _ hstep
    exact iff_of_amStep (hkept.lastCursorRight_ask libs hright) (hkept.lastCursorRight_mark libs hright) hstep

/-- Generating one address and marking the first of the two leaves the last cursor on the second. -/
theorem last_cursor_right_iff_two :
    HoldsAlong (amStep transparentSodium) (WalletAm.LastCursorRight fiveLibraries) (amNew (Bytes.zero 32) 0 none)
      (generateAndMark 1 0) := by
  apply (last_cursor_right_iff fiveLibraries _ (legal_generateAndMark_one UInt64.zero_le)).mpr
  apply (stepsAlong_generateAndMark_one _ 0).mpr
  refine ⟨⟨fun index hasked _ hold => ?_, fun hop => (by cases hop)⟩,
    ⟨fun _ hasked => (by cases hasked), fun hop => ?_⟩, trivial⟩
  · rw [← Option.some.inj hasked] at hold
    exact absurd hold (by decide)
  · exact absurd (AmOp.markSpentAddress.inj hop) (by decide)

/-- Spending the second of two addresses leaves the last cursor on it. -/
theorem last_cursor_stays_on_spent :
    ¬ ∀ (libs : Libraries) (seed : Seed) (ops : List ((UInt64 → Byte) × AmOp)),
      StepsAlong (amStep libs.sodium) (fun am op _ => op.2.Legal am) (amNew seed 0 none) ops →
        HoldsAlong (amStep libs.sodium) (WalletAm.LastCursorRight libs) (amNew seed 0 none) ops := by
  intro h
  have hright := ((stepsAlong_generateAndMark_one _ 1).mp
    (h fiveLibraries _ _ (legal_generateAndMark_one (UInt64.le_refl _))).2).2.1
  have hkept := wellKept_twoGenerated.amMarkSpentAddress (fun _ => 0) 1
  have hclear := (hkept.lastCursorRight_iff fiveLibraries).mp hright 0
  rw [hkept.covered.unspent_iff] at hclear
  revert hclear
  decide

end Goshimmer
