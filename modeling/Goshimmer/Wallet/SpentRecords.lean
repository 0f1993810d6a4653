import Goshimmer.Wallet.Cursors
import Goshimmer.Wallet.IndexBinding

/-!
# The two records of spent addresses

A send marks what it consumed twice: the entry of the address in the table, and the bit of the
recorded index in the mask. The two records agree as long as the entries which a send consumes sit
under the addresses of their indices, and the mask reaches over all indices from the start. An entry
which a refresh added has index 0, so consuming it retires its address in the one record and index 0
in the other.
-/

namespace Goshimmer

variable (libs : Libraries)

/-- The flag of every entry is the bit of every index which derives its address. -/
def SpentRecordsAgree (w : Wallet) : Prop :=
  ∀ (heap : UInt64 → Byte) (i : UInt64), i ≤ w.addrManager.lastAddrIndex →
    ∀ elm, unspentOutputsFind w.unspent (addressGet libs.sodium w.addrManager.seed i) = some elm →
      elm.spent = amIsSpentAddress heap w.addrManager i

/-- The mask marks the indices which derive the spent addresses of the table. Every entry sits under the
address of an index, which is the recorded one unless that is 0. -/
structure Wallet.RecordsInStep (seed : Seed) (w : Wallet) : Prop where
  seed_eq : w.addrManager.seed = seed
  agree : ∀ i, unspentOutputsGetSpent w.unspent (addressGet libs.sodium seed i) =
    w.addrManager.spentAddr.marked i
  derived : w.unspent.Each fun addr _ => ∃ i ≤ w.addrManager.lastAddrIndex, addr = addressGet libs.sodium seed i
  placed : w.unspent.Each fun addr addrIndex => addr = addressGet libs.sodium seed addrIndex ∨ addrIndex = 0

/-- The mask reaches over all indices. -/
def WalletAm.Covered (am : WalletAm) : Prop := am.lastAddrIndex.toNat / 8 < am.spentAddr.cap

/-- The byte of an index is inside such a mask. -/
theorem WalletAm.Covered.div_lt {am : WalletAm} (h : am.Covered) {i : UInt64} (hi : i ≤ am.lastAddrIndex) :
    i.toNat / 8 < am.spentAddr.cap :=
  (Nat.div_le_div_right (UInt64.le_iff_toNat_le.mp hi)).trans_lt h

/-- Asking for an address keeps the mask over all indices. -/
theorem WalletAm.Covered.amGetAddress {am : WalletAm} (h : am.Covered) (sodium : Sodium) (index : UInt64) :
    (amGetAddress sodium am index).1.Covered := by
  unfold WalletAm.Covered at h ⊢
  rw [amGetAddress_eq]
  dsimp only
  split
  · rw [cap_bitmaskOp]
    omega
  · exact h

/-- Marking an index keeps the mask over all indices. -/
theorem WalletAm.Covered.amMarkSpentAddress {am : WalletAm} (h : am.Covered) (heap : UInt64 → Byte)
    (index : UInt64) : (amMarkSpentAddress heap am index).Covered := by
  unfold WalletAm.Covered at h ⊢
  rw [lastAddrIndex_amMarkSpentAddress, (spentAddr_amMarkSpentAddress heap am index).1, cap_bitmaskOp]
  exact lt_max_of_lt_left h

/-- Every step keeps the mask over all indices. -/
theorem WalletAm.Covered.step {w w' : Wallet} (h : w.addrManager.Covered) {op : Env × WalletOp}
    {out : List Submission} (hstep : walletStep libs w op = some (w', out)) : w'.addrManager.Covered :=
  addrManager_invariant libs WalletAm.Covered (fun _ index ham => ham.amGetAddress libs.sodium index)
    (fun heap _ index ham => ham.amMarkSpentAddress heap index) h hstep

variable {libs}

/-- Records in step agree under a mask which reaches over all indices. -/
theorem Wallet.RecordsInStep.recordsAgree {seed : Seed} {w : Wallet} (h : w.RecordsInStep libs seed)
    (hcovered : w.addrManager.Covered) : SpentRecordsAgree libs w := by
  intro heap i hi elm helm
  rw [h.seed_eq] at helm
  have hagree := h.agree i
  rw [unspentOutputsGetSpent, helm] at hagree
  rw [amIsSpentAddress, bitmaskGet_eq_marked heap _ i (hcovered.div_lt hi)]
  exact hagree

/-- When every index has an entry, records in step agree only under a mask which reaches over all
indices: the index right behind the end of another one reads as whatever lies there. -/
theorem Wallet.RecordsInStep.covered {seed : Seed} {w : Wallet} (h : w.RecordsInStep libs seed)
    (hentries : ∀ i ≤ w.addrManager.lastAddrIndex,
      (unspentOutputsFind w.unspent (addressGet libs.sodium seed i)).isSome)
    (hagree : SpentRecordsAgree libs w) : w.addrManager.Covered := by
  unfold WalletAm.Covered
  by_contra hshort
  have hlast := w.addrManager.lastAddrIndex.toNat_lt
  obtain ⟨i, hi⟩ : ∃ i : UInt64, i.toNat = 8 * w.addrManager.spentAddr.cap :=
    ⟨UInt64.ofNat (8 * w.addrManager.spentAddr.cap), by rw [UInt64.toNat_ofNat', Nat.mod_eq_of_lt]; omega⟩
  have hle : i ≤ w.addrManager.lastAddrIndex := by
    rw [UInt64.le_iff_toNat_le]
    omega
  have hend : i.toNat / 8 = w.addrManager.spentAddr.cap := by omega
  obtain ⟨elm, helm⟩ := Option.isSome_iff_exists.mp (hentries i hle)
  have hlive : elm.spent = false := by
    have hflag := h.agree i
    rw [marked_of_cap_le hend.ge, unspentOutputsGetSpent, helm] at hflag
    exact hflag
  have hread : ∀ heap, bitmaskGet heap w.addrManager.spentAddr i = false := by
    intro heap
    rw [← hlive]
    exact (hagree heap i hle elm (by rw [h.seed_eq, helm])).symm
  exact ((bitmaskGet_eq_false_iff _ i).mp hread).2 hend

/-- Records in step mark no index above the largest one. -/
theorem Wallet.RecordsInStep.le_last {seed : Seed} {w : Wallet} (h : w.RecordsInStep libs seed)
    (hdistinct : Function.Injective (addressGet libs.sodium seed)) {i : UInt64}
    (hi : w.addrManager.spentAddr.marked i = true) : i ≤ w.addrManager.lastAddrIndex := by
  rw [← h.agree i, unspentOutputsGetSpent] at hi
  cases hfind : unspentOutputsFind w.unspent (addressGet libs.sodium seed i) with
  | none => simp [hfind] at hi
  | some elm =>
    obtain ⟨helm, haddr⟩ := (w.unspent.find_eq_some_iff _ _).mp hfind
    obtain ⟨j, hj, hderived⟩ := h.derived elm helm
    rw [hdistinct (haddr.symm.trans hderived)]
    exact hj

/-! ## One step -/

/-- Asking for an address keeps the records in step: an index is cleared only when it is new. -/
theorem Wallet.RecordsInStep.asked {seed : Seed} {w : Wallet} (h : w.RecordsInStep libs seed)
    (hdistinct : Function.Injective (addressGet libs.sodium seed)) (index : UInt64) :
    Wallet.RecordsInStep libs seed
      { w with addrManager := (amGetAddress libs.sodium w.addrManager index).1 } := by
  rw [amGetAddress_eq]
  by_cases hnew : w.addrManager.lastAddrIndex < index
  · have hfresh : w.addrManager.spentAddr.marked index = false := by
      rw [Bool.eq_false_iff]
      intro hmarked
      exact absurd hnew (UInt64.not_lt.mpr (h.le_last hdistinct hmarked))
    refine ⟨h.seed_eq, ?_, ?_, h.placed⟩
    · intro i
      simp only [if_pos hnew, marked_bitmaskOp, BitmaskOp.onBit]
      rw [h.agree i]
      by_cases hi : i = index
      · rw [if_pos hi, hi, hfresh]
      · rw [if_neg hi]
    · intro elm helm
      obtain ⟨i, hi, haddr⟩ := h.derived elm helm
      refine ⟨i, ?_, haddr⟩
      simp only [if_pos hnew]
      exact UInt64.le_trans hi (UInt64.le_of_lt hnew)
  · simp only [if_neg hnew]
    exact ⟨h.seed_eq, h.agree, h.derived, h.placed⟩

/-- A refresh asks for addresses of indices up to the largest one. -/
theorem exists_index_of_mem_refreshAddresses {env : Env} {w : Wallet} {includeSpent : Bool}
    {addrs : List AddressT} (haddrs : refreshAddresses libs env w includeSpent = some addrs)
    {addr : Address} (haddr : addr ∈ addrs.map AddressT.addr) :
    ∃ i ≤ w.addrManager.lastAddrIndex, addr = addressGet libs.sodium w.addrManager.seed i := by
  have hlist : ∀ {first : UInt64} {indices visited : List UInt64},
      indicesUpTo first w.addrManager.lastAddrIndex = some indices → visited ⊆ indices →
        amAddressList libs.sodium w.addrManager visited = addrs →
        ∃ i ≤ w.addrManager.lastAddrIndex, addr = addressGet libs.sodium w.addrManager.seed i := by
    intro first indices visited hindices hvisited hlisted
    rw [← hlisted, amAddressList, List.map_map] at haddr
    obtain ⟨i, hi, rfl⟩ := List.mem_map.mp haddr
    exact ⟨i, ((mem_of_indicesUpTo hindices i).mp (hvisited hi)).2, rfl⟩
  cases includeSpent with
  | true =>
    obtain ⟨indices, hindices, hlisted⟩ := Option.map_eq_some_iff.mp haddrs
    exact hlist hindices (List.Subset.refl _) hlisted
  | false =>
    obtain ⟨indices, hindices, hlisted⟩ := Option.map_eq_some_iff.mp haddrs
    exact hlist hindices (List.filter_subset_self _) hlisted

/-- A refresh through a node which answers only about addresses it was asked for keeps the records in
step. -/
theorem Wallet.RecordsInStep.refresh {seed : Seed} {env : Env} {w w' : Wallet}
    (h : w.RecordsInStep libs seed) {includeSpent synced : Bool}
    (hasked : AnswersAsked libs env w includeSpent)
    (hrefresh : walletRefresh libs env w includeSpent = some (synced, w')) :
    w'.RecordsInStep libs seed := by
  have ham := addrManager_walletRefresh libs env hrefresh
  refine ⟨ham ▸ h.seed_eq, ?_, ?_, ?_⟩
  · intro i
    rw [unspentOutputsGetSpent_walletRefresh libs env hrefresh, ham]
    exact h.agree i
  · rw [ham]
    refine each_walletRefresh libs h.derived (fun addrs haddrs unspent hunspent _ => ?_) hrefresh
    rw [← h.seed_eq]
    exact exists_index_of_mem_refreshAddresses haddrs (hasked addrs haddrs unspent hunspent)
  · exact each_walletRefresh libs h.placed (fun _ _ _ _ _ => Or.inr rfl) hrefresh

/-- The entries which a send selects from a table sit under the addresses of their indices. -/
def SelectionBound (libs : Libraries) (refreshed : Wallet) (dest : SendFundsOp) : Prop :=
  ∀ elm ∈ (consumedOutputs refreshed dest).entries,
    elm.addr = addressGet libs.sodium refreshed.addrManager.seed elm.addrIndex

/-- What a bound wallet selects is bound. -/
theorem Wallet.Bound.selectionBound {w : Wallet} (h : w.Bound libs) (dest : SendFundsOp) :
    SelectionBound libs w dest :=
  fun elm helm => h elm (mem_of_mem_consumedOutputs helm)

/-- The marking loop keeps the records in step when the selected entries sit under the addresses of
their indices. -/
theorem Wallet.RecordsInStep.markConsumed {seed : Seed} {w : Wallet} (h : w.RecordsInStep libs seed)
    (hdistinct : Function.Injective (addressGet libs.sodium seed)) {dest : SendFundsOp}
    (hbound : SelectionBound libs w dest) {am : WalletAm}
    (hbuilt : Wallet.RecordsInStep libs seed { w with addrManager := am }) (heap : UInt64 → Byte) :
    (markConsumed heap { w with addrManager := am } (consumedOutputs w dest)).RecordsInStep libs seed := by
  have hsame : ∀ i, addressGet libs.sodium seed i ∈
        (consumedOutputs w dest).entries.map UnspentOutputEntry.addr ↔
      i ∈ (consumedOutputs w dest).entries.map UnspentOutputEntry.addrIndex := by
    intro i
    rw [List.mem_map, List.mem_map]
    constructor
    · intro ⟨elm, helm, haddr⟩
      have hrecorded := hbound elm helm
      rw [h.seed_eq, haddr] at hrecorded
      exact ⟨elm, helm, (hdistinct hrecorded).symm⟩
    · intro ⟨elm, helm, hindex⟩
      have hrecorded := hbound elm helm
      rw [h.seed_eq, hindex] at hrecorded
      exact ⟨elm, helm, hrecorded⟩
  refine ⟨(seed_markConsumed _ _ _).trans hbuilt.seed_eq, ?_, ?_, ?_⟩
  · intro i
    rw [unspent_markConsumed, unspentOutputsGetSpent_foldl_setSpent, spentAddr_markConsumed,
      Bitmask.marked_setAll, hbuilt.agree i]
    congr 1
    rw [Bool.eq_iff_iff, Bool.and_eq_true, decide_eq_true_eq, decide_eq_true_eq, hsame i,
      and_iff_left_iff_imp]
    intro hi
    obtain ⟨elm, helm, haddr⟩ := List.mem_map.mp ((hsame i).mpr hi)
    rw [← haddr, InsertionTable.find_key_of_mem (mem_of_mem_consumedOutputs helm), Option.isSome_some]
  · rw [lastAddrIndex_markConsumed, unspent_markConsumed]
    exact UnspentOutputs.Each.foldl_setSpent _ hbuilt.derived
  · rw [unspent_markConsumed]
    exact UnspentOutputs.Each.foldl_setSpent _ hbuilt.placed

/-- Records which agree under a mask which reaches over all indices mark an index whose address is spent. -/
theorem SpentRecordsAgree.marked {w : Wallet} (h : SpentRecordsAgree libs w)
    (hcovered : w.addrManager.Covered) {i : UInt64} (hi : i ≤ w.addrManager.lastAddrIndex)
    (hspent : unspentOutputsGetSpent w.unspent (addressGet libs.sodium w.addrManager.seed i) = true) :
    w.addrManager.spentAddr.marked i = true := by
  rw [unspentOutputsGetSpent] at hspent
  cases hfind : unspentOutputsFind w.unspent (addressGet libs.sodium w.addrManager.seed i) with
  | none => simp [hfind] at hspent
  | some elm =>
    rw [hfind] at hspent
    rw [← bitmaskGet_eq_marked (fun _ => 0) _ i (hcovered.div_lt hi)]
    exact (h (fun _ => 0) i hi elm hfind).symm.trans hspent

/-- When the marking loop leaves records which agree, the selected entries sat under the addresses of
their indices. -/
theorem Wallet.RecordsInStep.selectionBound {seed : Seed} {w : Wallet} (h : w.RecordsInStep libs seed)
    {dest : SendFundsOp} {am : WalletAm}
    (hbuilt : Wallet.RecordsInStep libs seed { w with addrManager := am }) {heap : UInt64 → Byte}
    {w' : Wallet} (hw' : w' = Goshimmer.markConsumed heap { w with addrManager := am } (consumedOutputs w dest))
    (hcovered : w'.addrManager.Covered) (hagree : SpentRecordsAgree libs w') :
    SelectionBound libs w dest := by
  intro elm helm
  have hmem := mem_of_mem_consumedOutputs helm
  obtain ⟨j, hj, haddr⟩ := hbuilt.derived elm hmem
  have hflag : unspentOutputsGetSpent w'.unspent (addressGet libs.sodium seed j) = true := by
    rw [hw', unspent_markConsumed, unspentOutputsGetSpent_foldl_setSpent, ← haddr,
      InsertionTable.find_key_of_mem hmem]
    simp [List.mem_map_of_mem helm]
  have hset : w'.addrManager.spentAddr.marked j = true := by
    apply hagree.marked hcovered
    · rw [hw', lastAddrIndex_markConsumed]
      exact hj
    · rw [hw', seed_markConsumed, hbuilt.seed_eq, ← hw']
      exact hflag
  have hclear : am.spentAddr.marked j = false := by
    rw [← hbuilt.agree j, ← haddr, unspentOutputsGetSpent]
    simp only [unspentOutputsFind, InsertionTable.find_key_of_mem hmem]
    exact (mem_of_selected helm).2.1
  -- another selected entry recorded the index, and it can only be this one
  rw [hw', spentAddr_markConsumed, Bitmask.marked_setAll, hclear, Bool.false_or, decide_eq_true_eq] at hset
  obtain ⟨other, hother, rfl⟩ := List.mem_map.mp hset
  rw [h.seed_eq]
  rcases h.placed other (mem_of_mem_consumedOutputs hother) with hplaced | hzero
  · have hsame : other = elm := List.inj_on_of_nodup_map w.unspent.nodup
      (mem_of_mem_consumedOutputs hother) hmem (hplaced.trans haddr.symm)
    rw [← hsame]
    exact hplaced
  · rcases h.placed elm hmem with hplaced | helse
    · exact hplaced
    · rw [helse, haddr, hzero]

variable (libs) in
/-- What a send has to meet: when it is not refused, the entries which it selects from the refreshed
table sit under the addresses of their indices. -/
def SendsBound (env : Env) (w : Wallet) (dest : SendFundsOp) : Prop :=
  ¬ RefusedBeforeSending libs env w dest → ∀ synced refreshed,
    walletRefresh libs env w false = some (synced, refreshed) → SelectionBound libs refreshed dest

/-- The building of the outputs keeps the records in step. -/
theorem Wallet.RecordsInStep.built {seed : Seed} {w : Wallet} (h : w.RecordsInStep libs seed)
    (hdistinct : Function.Injective (addressGet libs.sodium seed)) {am : WalletAm}
    (hasked : AskedNew libs w.addrManager am) :
    Wallet.RecordsInStep libs seed { w with addrManager := am } :=
  hasked.invariant libs (fun am => Wallet.RecordsInStep libs seed { w with addrManager := am }) h
    fun am ham => ham.asked hdistinct (am.lastAddrIndex + 1)

/-- A send keeps the records in step when the node answers only about addresses it was asked for and
the selected entries sit under the addresses of their indices. -/
theorem Wallet.RecordsInStep.sendChange {seed : Seed} {env : Env} {w w' : Wallet}
    (h : w.RecordsInStep libs seed) (hdistinct : Function.Injective (addressGet libs.sodium seed))
    {dest : SendFundsOp} (hasked : AnswersAsked libs env w false) (hbound : SendsBound libs env w dest)
    {ret : Int} (hchange : SendChange libs env w dest ret w') : w'.RecordsInStep libs seed := by
  cases hchange with
  | unchanged => exact h
  | refreshed hrefresh => exact h.refresh hasked hrefresh
  | built hrefresh hbuilt =>
    exact (h.refresh hasked hrefresh).built hdistinct (askedNew_walletBuildOutputs libs hbuilt)
  | marked hsent hrefresh hbuilt =>
    have hrefreshed := h.refresh hasked hrefresh
    exact hrefreshed.markConsumed hdistinct (hbound hsent _ _ hrefresh)
      (hrefreshed.built hdistinct (askedNew_walletBuildOutputs libs hbuilt)) env.heap

variable (libs) in
/-- What a step has to meet: the node answers only about addresses it was asked for, and a send selects
entries which sit under the addresses of their indices. -/
def StepBound (w : Wallet) (op : Env × WalletOp) : Prop :=
  StepAsked libs w op ∧ ∀ dest, op.2 = .sendFunds dest → SendsBound libs op.1 w dest

/-- Such a step keeps the records in step. -/
theorem Wallet.RecordsInStep.step {seed : Seed} {w w' : Wallet} (h : w.RecordsInStep libs seed)
    (hdistinct : Function.Injective (addressGet libs.sodium seed)) {op : Env × WalletOp}
    {out : List Submission} (hmeets : StepBound libs w op)
    (hstep : walletStep libs w op = some (w', out)) : w'.RecordsInStep libs seed := by
  obtain ⟨env, op⟩ := op
  obtain ⟨hasked, hbound⟩ := hmeets
  cases stepChange_walletStep libs env hstep with
  | refreshed hrefresh => exact h.refresh hasked hrefresh
  | balanced hrefresh => exact h.refresh hasked hrefresh
  | asked _ => exact h.asked hdistinct _
  | sent hchange => exact h.sendChange hdistinct hasked (hbound _ rfl) hchange

/-- A step after which the records agree was such a step. -/
theorem Wallet.RecordsInStep.stepBound {seed : Seed} {w w' : Wallet} (h : w.RecordsInStep libs seed)
    (hdistinct : Function.Injective (addressGet libs.sodium seed))
    (hverify : libs.sodium.VerifiesOwnSignatures) (hcovered : w.addrManager.Covered)
    {op : Env × WalletOp} {out : List Submission} (hasked : StepAsked libs w op)
    (hstep : walletStep libs w op = some (w', out)) (hagree : SpentRecordsAgree libs w') :
    StepBound libs w op := by
  refine ⟨hasked, fun dest hop hsent synced refreshed hrefresh => ?_⟩
  obtain ⟨env, op⟩ := op
  obtain rfl : op = .sendFunds dest := hop
  have hcovered' := hcovered.step libs hstep
  obtain ⟨outcome, hsend, heq⟩ := Option.map_eq_some_iff.mp hstep
  obtain ⟨hw', -⟩ := Prod.mk.inj heq
  have hret : outcome.ret = 0 := by
    by_contra hfailed
    exact hsent ((ret_ne_zero_iff_refused hverify hsend).mp hfailed)
  have hchange := sendChange_walletSendFunds libs env hsend
  rw [hw'] at hchange
  generalize outcome.ret = ret at hret hchange
  cases hchange with
  | unchanged => exact absurd hret (by decide)
  | refreshed => exact absurd hret (by decide)
  | built => exact absurd hret (by decide)
  | marked _ hother hbuilt =>
    obtain ⟨-, rfl⟩ := Prod.mk.inj (Option.some.inj (hother.symm.trans hrefresh))
    have hrefreshed := h.refresh hasked hrefresh
    exact hrefreshed.selectionBound (hrefreshed.built hdistinct (askedNew_walletBuildOutputs libs hbuilt))
      rfl hcovered' hagree

end Goshimmer
