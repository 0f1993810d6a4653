import Goshimmer.Wallet.RecordRuns
import Goshimmer.Wallet.UnspentAddresses

/-!
# An unspent address along runs

Every step leaves an unspent index which it finds, except a send which marks the last one without
making a new address, and a step which reaches the largest index of all. The initialisation leaves
one unless all its unspent indices are read from behind the mask.
-/

namespace Goshimmer

variable (libs : Libraries)

/-- A send leaves an unspent index: one between the cursors stays unspent while the selection is marked,
or all indices between the cursors are selected and the request needs a remainder, which gets a new
one. -/
def SendLeavesUnspent (env : Env) (w : Wallet) (dest : SendFundsOp) : Prop :=
  ∀ synced refreshed, walletRefresh libs env w false = some (synced, refreshed) →
    RemainderFits libs refreshed dest ∧
      (¬ RefusedBeforeSending libs env w dest →
        (∃ i, refreshed.addrManager.firstUnspentIdx ≤ i ∧ i ≤ refreshed.addrManager.lastAddrIndex ∧
          StaysUnspent refreshed.addrManager.spentAddr
            ((consumedOutputs refreshed dest).entries.map UnspentOutputEntry.addrIndex) i) ∨
        (NeedsRemainder refreshed.addrManager dest (consumedOutputs refreshed dest) ∧
          ∀ i, refreshed.addrManager.firstUnspentIdx ≤ i → i ≤ refreshed.addrManager.lastAddrIndex →
            IndexSelected libs refreshed dest i))

/-- The condition on a step: an address which it asks for is not the last one of all, and a send leaves
an unspent index. -/
def StepLeavesUnspent (w : Wallet) (op : Env × WalletOp) : Prop :=
  (∀ index, op.2.askedIndex w.addrManager = some index → index.toNat + 1 < 2 ^ 64) ∧
    ∀ dest, op.2 = .sendFunds dest → SendLeavesUnspent libs op.1 w dest

/-- An unspent index is left, and no entry has a recorded index above the largest one. -/
structure Wallet.UnspentLeft (w : Wallet) : Prop where
  hasUnspent : w.addrManager.HasUnspent
  recorded : w.unspent.Each fun _ addrIndex => addrIndex ≤ w.addrManager.lastAddrIndex

variable {libs}

/-- A refresh leaves what it finds. -/
theorem Wallet.UnspentLeft.refresh {env : Env} {w w' : Wallet} (h : w.UnspentLeft)
    {includeSpent synced : Bool} (hrefresh : walletRefresh libs env w includeSpent = some (synced, w')) :
    w'.UnspentLeft := by
  have ham := addrManager_walletRefresh libs env hrefresh
  refine ⟨ham ▸ h.hasUnspent, ?_⟩
  rw [ham]
  exact each_walletRefresh libs h.recorded (fun _ _ _ _ _ => UInt64.zero_le) hrefresh

/-- A marked index which stays unspent is left after the marking loop. -/
theorem Wallet.UnspentLeft.markConsumed {w : Wallet} {consumed : UnspentOutputs} (heap : UInt64 → Byte)
    (hconsumed : consumed.entries ≠ []) (hlt : w.addrManager.lastAddrIndex.toNat + 1 < 2 ^ 64)
    (hrecorded : w.unspent.Each fun _ addrIndex => addrIndex ≤ w.addrManager.lastAddrIndex) {i : UInt64}
    (hfirst : w.addrManager.firstUnspentIdx ≤ i) (hlast : i ≤ w.addrManager.lastAddrIndex)
    (hstays : StaysUnspent w.addrManager.spentAddr (consumed.entries.map UnspentOutputEntry.addrIndex) i) :
    (markConsumed heap w consumed).UnspentLeft := by
  refine ⟨⟨?_, i, ?_, ?_, ?_⟩, ?_⟩
  · rwa [lastAddrIndex_markConsumed]
  · exact firstUnspentIdx_markConsumed_le heap hfirst hstays
  · rwa [lastAddrIndex_markConsumed]
  · intro read
    rw [amIsSpentAddress, spentAddr_markConsumed]
    exact hstays _ (by simpa using hconsumed) (List.prefix_refl _) read
  · rw [lastAddrIndex_markConsumed, unspent_markConsumed]
    exact UnspentOutputs.Each.foldl_setSpent _ hrecorded

/-- The cursors of an address manager with an unspent index are in order. -/
theorem WalletAm.HasUnspent.inOrder {am : WalletAm} (h : am.HasUnspent) : am.InOrder := by
  obtain ⟨i, hfirst, hlast, -⟩ := h.left
  exact UInt64.le_trans hfirst hlast

/-- A new largest index is left, and the recorded ones are below it. -/
theorem Wallet.UnspentLeft.raised {w : Wallet} (h : w.UnspentLeft) {am : WalletAm}
    (hraised : w.addrManager.lastAddrIndex < am.lastAddrIndex) (hlt : am.lastAddrIndex.toNat + 1 < 2 ^ 64)
    (hcursor : am.firstUnspentIdx = w.addrManager.firstUnspentIdx)
    (hclear : am.spentAddr.marked am.lastAddrIndex = false)
    (hinside : am.lastAddrIndex.toNat / 8 < am.spentAddr.cap) :
    Wallet.UnspentLeft { w with addrManager := am } := by
  refine ⟨⟨hlt, am.lastAddrIndex, ?_, UInt64.le_refl _, ?_⟩, ?_⟩
  · dsimp only
    rw [hcursor]
    exact UInt64.le_trans h.hasUnspent.inOrder (UInt64.le_of_lt hraised)
  · exact (bitmaskGet_eq_false_iff _ _).mpr ⟨hclear, hinside.ne⟩
  · intro elm helm
    exact UInt64.le_trans (h.recorded elm helm) (UInt64.le_of_lt hraised)

/-- The condition on a send keeps an unspent index left. -/
theorem Wallet.UnspentLeft.sendChange {env : Env} {w w' : Wallet} (h : w.UnspentLeft)
    {dest : SendFundsOp} (hleaves : SendLeavesUnspent libs env w dest) {ret : Int}
    (hchange : SendChange libs env w dest ret w') : w'.UnspentLeft := by
  cases hchange with
  | unchanged => exact h
  | refreshed hrefresh => exact h.refresh hrefresh
  | built hrefresh hbuilt =>
    have hrefreshed := h.refresh hrefresh
    obtain ⟨hfits, -⟩ := hleaves _ _ hrefresh
    rcases walletBuildOutputs_addrManager libs hrefreshed.hasUnspent.inOrder hfits hbuilt with
      ⟨rfl, -⟩ | ⟨hraised, hlt, hcursor, hclear, hinside⟩
    · exact hrefreshed
    · exact hrefreshed.raised hraised hlt hcursor hclear hinside
  | marked hsent hrefresh hbuilt =>
    have hrefreshed := h.refresh hrefresh
    have hconsumed := consumedOutputs_ne_nil libs hsent hrefresh
    obtain ⟨hfits, hleft⟩ := hleaves _ _ hrefresh
    rcases walletBuildOutputs_addrManager libs hrefreshed.hasUnspent.inOrder hfits hbuilt with
      ⟨rfl, hfree⟩ | ⟨hraised, hlt, hcursor, hclear, hinside⟩
    · rcases hleft hsent with ⟨i, hfirst, hlast, hstays⟩ | ⟨hneeds, hselected⟩
      · exact Wallet.UnspentLeft.markConsumed env.heap hconsumed hrefreshed.hasUnspent.last_lt
          hrefreshed.recorded hfirst hlast hstays
      · obtain ⟨i, hfirst, hlast, hnot⟩ := hfree hneeds
        exact absurd (hselected i hfirst hlast) hnot
    · have hnext := hrefreshed.raised hraised hlt hcursor hclear hinside
      refine Wallet.UnspentLeft.markConsumed env.heap hconsumed hlt hnext.recorded hnext.hasUnspent.inOrder
        (UInt64.le_refl _) (staysUnspent_of_inside hclear hinside fun hmem => ?_)
      obtain ⟨elm, helm, hindex⟩ := List.mem_map.mp hmem
      have hbelow := hrefreshed.recorded elm (mem_of_mem_consumedOutputs helm)
      rw [hindex] at hbelow
      exact absurd hraised (UInt64.not_lt.mpr hbelow)

/-- The condition on a step keeps an unspent index left. -/
theorem Wallet.UnspentLeft.step {w w' : Wallet} (h : w.UnspentLeft) {op : Env × WalletOp}
    {out : List Submission} (hmeets : StepLeavesUnspent libs w op)
    (hstep : walletStep libs w op = some (w', out)) : w'.UnspentLeft := by
  obtain ⟨env, op⟩ := op
  cases stepChange_walletStep libs env hstep with
  | refreshed hrefresh => exact h.refresh hrefresh
  | balanced hrefresh => exact h.refresh hrefresh
  | @asked _ index hindex =>
    refine ⟨h.hasUnspent.amGetAddress libs (hmeets.1 index hindex), fun elm helm => ?_⟩
    dsimp only
    rw [lastAddrIndex_amGetAddress]
    split
    · next hnew => exact UInt64.le_trans (h.recorded elm helm) (UInt64.le_of_lt hnew)
    · exact h.recorded elm helm
  | sent hchange => exact h.sendChange (hmeets.2 _ rfl) hchange

/-! ## Runs from initialisation -/

/-- The initialisation leaves an unspent index, unless the mask ends right before the first unspent index
and the indices end within a byte behind it. -/
theorem unspentLeft_walletInit {env : Env} {url : List Byte} {port : UInt16} {seed : Seed}
    {lastAddr firstUnspent lastUnspent : UInt64} {initial : Wallet} (hcursors : firstUnspent ≤ lastAddr)
    (hmask : firstUnspent.toNat % 8 ≠ 0 ∨ firstUnspent = 0 ∨ firstUnspent.toNat + 8 ≤ lastAddr.toNat)
    (hinit : walletInit libs env url port seed lastAddr firstUnspent lastUnspent = some initial) :
    initial.UnspentLeft := by
  obtain ⟨start, hlocal, hrefreshed⟩ := Option.bind_eq_some_iff.mp hinit
  obtain ⟨result, hrefresh, rfl⟩ := Option.map_eq_some_iff.mp hrefreshed
  refine Wallet.UnspentLeft.refresh ?_ hrefresh
  obtain ⟨indices, hindices, rfl⟩ := Option.map_eq_some_iff.mp hlocal
  have hbound := lastAddr.toNat_lt
  have hfirst := UInt64.le_iff_toNat_le.mp hcursors
  have hread : ∀ i : UInt64, firstUnspent ≤ i → i.toNat / 8 ≠ max 1 ((firstUnspent.toNat + 7) / 8) →
      ∀ heap, bitmaskGet heap (bitmaskNew.setAll (indicesBelow 0 firstUnspent)) i = false := by
    intro i hi hend
    rw [bitmaskGet_eq_false_iff, Bitmask.marked_setAll, marked_bitmaskNew, Bool.false_or,
      decide_eq_false_iff_not, mem_indicesBelow, cap_initMask]
    exact ⟨fun hmem => absurd hmem.2 (UInt64.not_lt.mpr hi), hend⟩
  refine ⟨⟨?_, ?_⟩, ?_⟩
  · exact toNat_last_lt_of_indicesUpTo hindices
  · by_cases hhere : firstUnspent.toNat % 8 ≠ 0 ∨ firstUnspent = 0
    · refine ⟨firstUnspent, UInt64.le_refl _, hcursors, hread firstUnspent (UInt64.le_refl _) ?_⟩
      rcases hhere with hinside | rfl
      · omega
      · decide
    · -- the byte of the first unspent index lies right behind the mask, the next one further off
      obtain ⟨haligned, hpositive⟩ := not_or.mp hhere
      have hfar := (or_assoc.mpr hmask).resolve_left hhere
      obtain ⟨i, hi⟩ : ∃ i : UInt64, i.toNat = firstUnspent.toNat + 8 :=
        ⟨UInt64.ofNat (firstUnspent.toNat + 8), by rw [UInt64.toNat_ofNat', Nat.mod_eq_of_lt]; omega⟩
      have hle : firstUnspent ≤ i := by
        rw [UInt64.le_iff_toNat_le]
        omega
      refine ⟨i, hle, ?_, hread i hle ?_⟩
      · dsimp only
        rw [UInt64.le_iff_toNat_le]
        omega
      · have hne : firstUnspent.toNat ≠ 0 := fun hzero => hpositive (UInt64.toNat_inj.mp hzero)
        omega
  · exact each_foldl_initEntry libs firstUnspent indices (each_unspentOutputsInit _)
      fun i hi => ((mem_of_indicesUpTo hindices i).mp hi).2

variable (libs)

/-- In every run from an initialised wallet whose steps leave an unspent index, the list of unspent
addresses is not empty in any state reached, so no refresh jumps to its end early. -/
theorem unspent_addresses_remain {env : Env} {url : List Byte} {port : UInt16} {seed : Seed}
    {lastAddr firstUnspent lastUnspent : UInt64} {initial w : Wallet} {log : List Submission}
    (hcursors : firstUnspent ≤ lastAddr)
    (hmask : firstUnspent.toNat % 8 ≠ 0 ∨ firstUnspent = 0 ∨ firstUnspent.toNat + 8 ≤ lastAddr.toNat)
    (hinit : walletInit libs env url port seed lastAddr firstUnspent lastUnspent = some initial)
    (hrun : Run (walletStep libs) (StepLeavesUnspent libs) initial w log) :
    (∀ heap, ∃ addr rest, amUnspentAddresses libs.sodium heap w.addrManager = some (addr :: rest)) ∧
      ∀ env includeSpent, ∃ addr rest, refreshAddresses libs env w includeSpent = some (addr :: rest) := by
  have hleft : w.UnspentLeft := by
    induction hrun with
    | start => exact unspentLeft_walletInit hcursors hmask hinit
    | next _ hmeets hstep ih => exact ih.step hmeets hstep
  exact ⟨hleft.hasUnspent.amUnspentAddresses libs.sodium, hleft.hasUnspent.refreshAddresses libs⟩

/-- Paying three of five tokens selects the only address, and its remainder gets a new one. -/
theorem sendLeavesUnspent_three : SendLeavesUnspent fiveLibraries (fiveNode 0) oneAddress (plainRequest 3) := by
  have hneeds : NeedsRemainder fiveWallet.addrManager (plainRequest 3)
      (consumedOutputs fiveWallet (plainRequest 3)) := by
    unfold NeedsRemainder
    decide
  have hselected : IndexSelected fiveLibraries fiveWallet (plainRequest 3) 0 := by
    unfold IndexSelected
    decide
  have hfree : ¬ IndexSelected fiveLibraries fiveWallet (plainRequest 3) 1 := by
    unfold IndexSelected
    decide
  intro synced refreshed hrefresh
  obtain ⟨-, rfl⟩ := Prod.mk.inj (Option.some.inj (hrefresh.symm.trans walletRefresh_oneAddress))
  refine ⟨fun _ => ⟨1, UInt64.zero_le, by decide, hfree⟩, fun _ => Or.inr ⟨hneeds, fun i _ hlast => ?_⟩⟩
  rw [UInt64.le_zero_iff.mp hlast]
  exact hselected

/-- After the payment an address is left to ask for. -/
theorem unspent_addresses_remain_three :
    ∃ addr rest, amUnspentAddresses transparentSodium (fun _ => 0)
      ((payReported 3).get payReportedThree_isSome).wallet.addrManager = some (addr :: rest) := by
  have hmeets : StepLeavesUnspent fiveLibraries oneAddress (fiveNode 0, .sendFunds (plainRequest 3)) := by
    refine ⟨fun index hasked => (by cases hasked), fun dest hop => ?_⟩
    rw [← WalletOp.sendFunds.inj hop]
    exact sendLeavesUnspent_three
  exact (unspent_addresses_remain fiveLibraries (by decide) (Or.inr (Or.inl rfl)) walletInit_oneAddress
    (Run.single hmeets (walletStep_payReported payReportedThree_isSome))).1 fun _ => 0

/-- The wallet with one address after this address got five tokens and paid them. -/
def allSpent : Wallet := zeroSeedWallet 0 0 [1] [zeroSeedEntry 0 0 true fiveIds]

/-- A payment of everything from the only address leaves no unspent one. -/
theorem unspent_addresses_run_out :
    ¬ ∀ (libs : Libraries) (env : Env) (url : List Byte) (port : UInt16) (seed : Seed)
      (lastAddr firstUnspent lastUnspent : UInt64) (initial w : Wallet) (log : List Submission),
      firstUnspent ≤ lastAddr →
        walletInit libs env url port seed lastAddr firstUnspent lastUnspent = some initial →
        Run (walletStep libs) (fun _ op => op.2 ≠ .receiveAddress ∧ op.2 ≠ .remainderAddress) initial w log →
          ∀ heap, ∃ addr rest, amUnspentAddresses libs.sodium heap w.addrManager = some (addr :: rest) := by
  intro h
  have hpaid : (payReported 5).map SendOutcome.wallet = some allSpent := by
    rw [payReported_eq (Or.inr rfl)]
    decide +kernel
  obtain ⟨out, hstep⟩ := exists_step_of_walletSendFunds fiveLibraries (fiveNode 0) oneAddress allSpent
    (plainRequest 5) hpaid
  have hrun : Run (walletStep fiveLibraries) (fun _ op => op.2 ≠ .receiveAddress ∧ op.2 ≠ .remainderAddress)
      oneAddress allSpent out := Run.single (by simp) hstep
  obtain ⟨addr, rest, hlist⟩ := h fiveLibraries unreachable (cText "http://node/") 0 (Bytes.zero 32) 0 0 0
    oneAddress _ _ (by decide) walletInit_oneAddress hrun fun _ => 0
  have hempty : amUnspentAddresses transparentSodium (fun _ => 0) allSpent.addrManager = some [] := by
    decide
  have hnil := Option.some.inj (hempty.symm.trans hlist)
  exact List.cons_ne_nil addr rest hnil.symm

end Goshimmer
