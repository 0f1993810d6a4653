import Goshimmer.Wallet.SpentRecords

/-!
# The two records along runs

The initialisation marks the indices below the first unspent one in both records, and sizes the mask
for them. From there the records agree in all states of a run exactly when the mask reaches over all
indices from the start and every send meets its condition.
-/

namespace Goshimmer

variable {libs : Libraries}

/-- The flags after an entry was set up. -/
theorem unspentOutputsGetSpent_initEntry {seed : Seed}
    (hdistinct : Function.Injective (addressGet libs.sodium seed)) (firstUnspent : UInt64)
    (t : UnspentOutputs) (i j : UInt64) :
    unspentOutputsGetSpent (initEntry libs seed firstUnspent t i) (addressGet libs.sodium seed j) =
      (unspentOutputsGetSpent t (addressGet libs.sodium seed j) || decide (j = i ∧ i < firstUnspent)) := by
  unfold initEntry
  dsimp only
  split
  · next hspent =>
    rw [unspentOutputsGetSpent_setSpent, unspentOutputsGetSpent_add]
    by_cases hsame : j = i
    · subst hsame
      rw [if_pos rfl, unspentOutputsAdd_snd, InsertionTable.find_insertNew, if_pos rfl]
      simp [hspent]
    · rw [if_neg fun haddr => hsame (hdistinct haddr).symm]
      simp [hsame]
  · next hunspent =>
    rw [unspentOutputsGetSpent_add]
    simp [hunspent]

/-- The flags after the loop of the initialisation. -/
theorem unspentOutputsGetSpent_foldl_initEntry {seed : Seed}
    (hdistinct : Function.Injective (addressGet libs.sodium seed)) (firstUnspent : UInt64)
    (indices : List UInt64) (t : UnspentOutputs) (j : UInt64) :
    unspentOutputsGetSpent (indices.foldl (initEntry libs seed firstUnspent) t) (addressGet libs.sodium seed j) =
      (unspentOutputsGetSpent t (addressGet libs.sodium seed j) ||
        decide (j ∈ indices ∧ j < firstUnspent)) := by
  induction indices generalizing t with
  | nil => simp
  | cons i rest ih =>
    rw [List.foldl_cons, ih, unspentOutputsGetSpent_initEntry hdistinct, Bool.or_assoc]
    congr 1
    by_cases hsame : j = i
    · subst hsame
      simp
    · simp [hsame]

/-- How far the mask of the initialisation reaches. -/
theorem cap_initMask (firstUnspent : UInt64) :
    (bitmaskNew.setAll (indicesBelow 0 firstUnspent)).cap = max 1 ((firstUnspent.toNat + 7) / 8) := by
  apply eq_of_forall_lt_iff
  intro n
  rw [Bitmask.lt_cap_setAll, lt_max_iff]
  refine or_congr Iff.rfl ⟨fun ⟨i, hi, hn⟩ => ?_, fun hn => ?_⟩
  · have hless := UInt64.lt_iff_toNat_lt.mp (mem_indicesBelow.mp hi).2
    omega
  · have hone : (1 : UInt64) ≤ firstUnspent := by
      rw [UInt64.le_iff_toNat_le, UInt64.toNat_one]
      omega
    have hbefore : (firstUnspent - 1).toNat = firstUnspent.toNat - 1 := UInt64.toNat_sub_of_le _ _ hone
    refine ⟨firstUnspent - 1, mem_indicesBelow.mpr ⟨UInt64.zero_le, ?_⟩, by omega⟩
    rw [UInt64.lt_iff_toNat_lt, hbefore]
    omega

/-- The wallet which the initialisation sets up has its records in step. -/
theorem recordsInStep_walletInitLocal {url : List Byte} {port : UInt16} {seed : Seed}
    {lastAddr firstUnspent lastUnspent : UInt64} {w : Wallet}
    (hdistinct : Function.Injective (addressGet libs.sodium seed)) (hcursors : firstUnspent ≤ lastAddr)
    (h : walletInitLocal libs url port seed lastAddr firstUnspent lastUnspent = some w) :
    w.RecordsInStep libs seed := by
  obtain ⟨indices, hindices, rfl⟩ := Option.map_eq_some_iff.mp h
  refine ⟨rfl, ?_, ?_, ?_⟩
  · intro i
    change unspentOutputsGetSpent (indices.foldl (initEntry libs seed firstUnspent) unspentOutputsInit) _ =
      (bitmaskNew.setAll (indicesBelow 0 firstUnspent)).marked i
    have hvisited : i ∈ indices ∧ i < firstUnspent ↔ i ∈ indicesBelow 0 firstUnspent := by
      rw [mem_indicesBelow, mem_of_indicesUpTo hindices]
      refine ⟨fun hi => ⟨hi.1.1, hi.2⟩, fun hi => ⟨⟨hi.1, ?_⟩, hi.2⟩⟩
      exact UInt64.le_trans (UInt64.le_of_lt hi.2) hcursors
    rw [unspentOutputsGetSpent_foldl_initEntry hdistinct, Bitmask.marked_setAll, marked_bitmaskNew,
      decide_eq_decide.mpr hvisited]
    rfl
  · refine each_foldl_initEntry libs firstUnspent indices (each_unspentOutputsInit _) fun i hi => ⟨i, ?_, rfl⟩
    exact ((mem_of_indicesUpTo hindices i).mp hi).2
  · exact each_foldl_initEntry libs firstUnspent indices (each_unspentOutputsInit _) fun i _ => Or.inl rfl

variable (libs)

/-- What the initialisation leaves: records in step, an entry for each index, and a mask of the size which
the first unspent index needs. -/
theorem recordsInStep_walletInit {env : Env} {url : List Byte} {port : UInt16} {seed : Seed}
    {lastAddr firstUnspent lastUnspent : UInt64} {initial : Wallet}
    (hdistinct : Function.Injective (addressGet libs.sodium seed)) (hcursors : firstUnspent ≤ lastAddr)
    (hinit : walletInit libs env url port seed lastAddr firstUnspent lastUnspent = some initial)
    (hasked : ∀ w, walletInitLocal libs url port seed lastAddr firstUnspent lastUnspent = some w →
      AnswersAsked libs env w true) :
    initial.RecordsInStep libs seed ∧
      (∀ i ≤ initial.addrManager.lastAddrIndex,
        (unspentOutputsFind initial.unspent (addressGet libs.sodium seed i)).isSome) ∧
      (initial.addrManager.Covered ↔ lastAddr.toNat / 8 < max 1 ((firstUnspent.toNat + 7) / 8)) := by
  obtain ⟨start, hlocal, hrefreshed⟩ := Option.bind_eq_some_iff.mp hinit
  obtain ⟨result, hrefresh, rfl⟩ := Option.map_eq_some_iff.mp hrefreshed
  have ham := addrManager_walletInit libs hinit
  refine ⟨(recordsInStep_walletInitLocal hdistinct hcursors hlocal).refresh (hasked start hlocal) hrefresh,
    ?_, ?_⟩
  · intro i hi
    rw [ham] at hi
    have hentry : (unspentOutputsFind start.unspent (addressGet libs.sodium seed i)).isSome := by
      obtain ⟨indices, hindices, rfl⟩ := Option.map_eq_some_iff.mp hlocal
      have hset := (foldl_initEntry libs seed firstUnspent indices
        (UnspentOutputs.boundBy_iff.mpr (each_unspentOutputsInit _))).2
      refine hset _ (Or.inr (List.mem_map_of_mem ?_))
      exact (mem_of_indicesUpTo hindices i).mpr ⟨UInt64.zero_le, hi⟩
    rcases walletRefresh_cases libs env hrefresh with hsame | ⟨addrs, -, -, happlied⟩
    · rwa [hsame]
    · rw [happlied]
      exact isSome_find_foldl_refreshEntry _ hentry
  · rw [WalletAm.Covered, ham, ← cap_initMask]
    rfl

/-- Along any operations on an initialised wallet, whose nodes answer only about addresses they were asked
for, the two records of spent addresses agree in all states exactly when the mask reaches over all indices
from the start and every send selects entries which sit under the addresses of their indices. -/
theorem spent_records_agree_iff {env : Env} {url : List Byte} {port : UInt16} {seed : Seed}
    {lastAddr firstUnspent lastUnspent : UInt64} {initial : Wallet} {ops : List (Env × WalletOp)}
    (hverify : libs.sodium.VerifiesOwnSignatures)
    (hdistinct : Function.Injective (addressGet libs.sodium seed)) (hcursors : firstUnspent ≤ lastAddr)
    (hinit : walletInit libs env url port seed lastAddr firstUnspent lastUnspent = some initial)
    (hasked : ∀ w, walletInitLocal libs url port seed lastAddr firstUnspent lastUnspent = some w →
      AnswersAsked libs env w true)
    (hanswers : StepsAlong (walletStep libs) (fun w op _ => StepAsked libs w op) initial ops) :
    HoldsAlong (walletStep libs) (SpentRecordsAgree libs) initial ops ↔
      (lastAddr.toNat / 8 < max 1 ((firstUnspent.toNat + 7) / 8) ∧
        StepsAlong (walletStep libs) (fun w op _ => StepBound libs w op) initial ops) := by
  obtain ⟨hstart, hentries, hcovered⟩ := recordsInStep_walletInit libs hdistinct hcursors hinit hasked
  have hinitial : SpentRecordsAgree libs initial ↔ lastAddr.toNat / 8 < max 1 ((firstUnspent.toNat + 7) / 8) := by
    rw [← hcovered]
    exact ⟨hstart.covered hentries, hstart.recordsAgree⟩
  rw [← hinitial]
  refine HoldsAlong.iff_of_step (walletStep libs)
    (fun w => w.RecordsInStep libs seed ∧ w.addrManager.Covered) ?_ ?_ ?_ hanswers
  · exact fun hagree => ⟨hstart, hstart.covered hentries hagree⟩
  · exact fun hkept hmeets hstep => ⟨hkept.1.step hdistinct hmeets hstep, hkept.2.step libs hstep⟩
  · intro w op next hkept _ hmeets hstep
    constructor
    · intro hagree'
      exact hkept.1.stepBound hdistinct hverify hkept.2 hmeets hstep hagree'
    · intro hbound
      exact (hkept.1.step hdistinct hbound hstep).recordsAgree (hkept.2.step libs hstep)

/-- A payment of the five tokens, and then a new address. -/
def payAndAskAgain : List (Env × WalletOp) :=
  [(fiveNode 0, .sendFunds (plainRequest 5)), (unreachable, .newReceiveAddress)]

/-- A property of its two steps. -/
theorem stepsAlong_payAndAskAgain (p : Wallet → Env × WalletOp → Wallet × List Submission → Prop)
    {paid : SendOutcome}
    (hpaid : walletStep fiveLibraries oneAddress (fiveNode 0, .sendFunds (plainRequest 5)) =
      some (paid.wallet, paid.submitted)) :
    StepsAlong (walletStep fiveLibraries) p oneAddress payAndAskAgain ↔
      p oneAddress (fiveNode 0, .sendFunds (plainRequest 5)) (paid.wallet, paid.submitted) ∧
        p paid.wallet (unreachable, .newReceiveAddress)
            ((walletNewReceiveAddress fiveLibraries paid.wallet).1, []) ∧
          True := by
  have hsecond : ∀ w, walletStep fiveLibraries w (unreachable, .newReceiveAddress) =
      some ((walletNewReceiveAddress fiveLibraries w).1, []) := fun _ => rfl
  rw [payAndAskAgain, StepsAlong.cons_iff _ hpaid, StepsAlong.cons_iff _ (hsecond _), StepsAlong]

/-- The node with the five tokens answers only about the address it is asked for. -/
theorem answersAsked_fiveNode : AnswersAsked fiveLibraries (fiveNode 0) oneAddress false := by
  intro addrs hother unspent hunspent
  rw [← Option.some.inj (refreshAddresses_oneAddress.symm.trans hother)] at hunspent ⊢
  rw [refreshReply_fiveNode (Or.inl rfl) _ (by decide)] at hunspent
  revert hunspent unspent
  decide

/-- The payment selects the address of its index. -/
theorem sendsBound_oneAddress (amount : UInt64) :
    SendsBound fiveLibraries (fiveNode 0) oneAddress (plainRequest amount) := by
  have hbound : fiveWallet.Bound fiveLibraries := by
    unfold Wallet.Bound UnspentOutputs.BoundBy
    decide
  intro _ synced refreshed hrefresh
  obtain ⟨-, rfl⟩ := Prod.mk.inj (Option.some.inj (hrefresh.symm.trans walletRefresh_oneAddress))
  exact hbound.selectionBound _

/-- So the payment meets its conditions. -/
theorem stepBound_oneAddress (amount : UInt64) :
    StepBound fiveLibraries oneAddress (fiveNode 0, .sendFunds (plainRequest amount)) := by
  refine ⟨answersAsked_fiveNode, fun dest hop => ?_⟩
  rw [← WalletOp.sendFunds.inj hop]
  exact sendsBound_oneAddress amount

/-- The two records agree after the payment, and after the new address was handed out. -/
theorem spent_records_agree_iff_payAndAskAgain :
    HoldsAlong (walletStep fiveLibraries) (SpentRecordsAgree fiveLibraries) oneAddress payAndAskAgain := by
  have hpaid := walletStep_payReported payReportedFive_isSome
  have hanswers : StepsAlong (walletStep fiveLibraries) (fun w op _ => StepAsked fiveLibraries w op) oneAddress
      payAndAskAgain :=
    (stepsAlong_payAndAskAgain _ hpaid).mpr ⟨answersAsked_fiveNode, trivial, trivial⟩
  apply (spent_records_agree_iff fiveLibraries transparentSodium_verifiesOwnSignatures
    (addressGet_transparentSodium_injective _) (by decide) walletInit_oneAddress
    (fun w _ => answersAsked_unreachable _ w true) hanswers).mpr
  exact ⟨by decide, (stepsAlong_payAndAskAgain _ hpaid).mpr
    ⟨stepBound_oneAddress 5, ⟨trivial, fun dest hop => by simp at hop⟩, trivial⟩⟩

/-- The wallet after it handed out a second address. -/
def secondAddress : Wallet := (walletNewReceiveAddress fiveLibraries oneAddress).1

/-- The wallet after the second address got five tokens and paid them: its entry is spent, and the bit of
index 0 is set. -/
def wrongIndexMarked : Wallet :=
  zeroSeedWallet 1 1 [1] [zeroSeedEntry 0 0 false outputIdsInit, zeroSeedEntry 1 0 true fiveIds]

/-- The addresses which the refresh of the second one asks for. -/
theorem refreshAddresses_secondAddress :
    refreshAddresses fiveLibraries (fiveNode 1) secondAddress false =
      some [⟨0, zeroSeedAddress 0⟩, ⟨1, zeroSeedAddress 1⟩] := by
  decide

/-- This payment. -/
theorem walletSendFunds_secondAddress :
    (walletSendFunds fiveLibraries (fiveNode 1) secondAddress (plainRequest 5)).map SendOutcome.wallet =
      some wrongIndexMarked := by
  rw [walletSendFunds_plainRequest (by decide) (walletRefresh_fiveNode (Or.inr rfl)
    refreshAddresses_secondAddress (List.cons_ne_nil _ _) (by decide))]
  · decide +kernel
  · unfold PassesBalanceCheck
    decide

/-- After a payment from an address which was handed out later the two records differ. -/
theorem wrong_index_marked :
    ¬ ∀ (libs : Libraries) (env : Env) (url : List Byte) (port : UInt16) (seed : Seed)
      (lastAddr firstUnspent lastUnspent : UInt64) (initial : Wallet) (ops : List (Env × WalletOp)),
      libs.sodium.VerifiesOwnSignatures → Function.Injective (addressGet libs.sodium seed) →
        firstUnspent ≤ lastAddr →
        walletInit libs env url port seed lastAddr firstUnspent lastUnspent = some initial →
        (∀ w, walletInitLocal libs url port seed lastAddr firstUnspent lastUnspent = some w →
          AnswersAsked libs env w true) →
        (∀ op ∈ ops, op.2 ≠ .receiveAddress ∧ op.2 ≠ .remainderAddress) →
        StepsAlong (walletStep libs) (fun w op _ => StepAsked libs w op) initial ops →
          HoldsAlong (walletStep libs) (SpentRecordsAgree libs) initial ops := by
  intro h
  have hasked : AnswersAsked fiveLibraries (fiveNode 1) secondAddress false := by
    intro addrs hother unspent hunspent
    rw [← Option.some.inj (refreshAddresses_secondAddress.symm.trans hother)] at hunspent ⊢
    rw [refreshReply_fiveNode (Or.inr rfl) _ (by decide)] at hunspent
    revert hunspent unspent
    decide
  have hfirst : walletStep fiveLibraries oneAddress (unreachable, .newReceiveAddress) =
      some (secondAddress, []) := rfl
  obtain ⟨out, hstep⟩ := exists_step_of_walletSendFunds fiveLibraries (fiveNode 1) secondAddress
    wrongIndexMarked (plainRequest 5) walletSendFunds_secondAddress
  have hanswers : StepsAlong (walletStep fiveLibraries) (fun w op _ => StepAsked fiveLibraries w op) oneAddress
      [(unreachable, .newReceiveAddress), (fiveNode 1, .sendFunds (plainRequest 5))] := by
    rw [StepsAlong.cons_iff _ hfirst, StepsAlong.cons_iff _ hstep]
    exact ⟨trivial, hasked, trivial⟩
  have hagree := (h fiveLibraries unreachable (cText "http://node/") 0 (Bytes.zero 32) 0 0 0 oneAddress _
    transparentSodium_verifiesOwnSignatures (addressGet_transparentSodium_injective _) (by decide)
    walletInit_oneAddress (fun w _ => answersAsked_unreachable _ w true) (by simp) hanswers).2
  rw [StepsAlong.cons_iff _ hfirst, StepsAlong.cons_iff _ hstep] at hagree
  have hentry : unspentOutputsFind wrongIndexMarked.unspent (zeroSeedAddress 1) =
      some (zeroSeedEntry 1 0 true fiveIds) := by
    decide
  have hbit : amIsSpentAddress (fun _ => 0) wrongIndexMarked.addrManager 1 = false := by decide
  have hmarked : SpentRecordsAgree fiveLibraries wrongIndexMarked := hagree.2.1
  have hsame := hmarked (fun _ => 0) 1 (by decide) _ hentry
  rw [hbit] at hsame
  exact Bool.noConfusion hsame

end Goshimmer
