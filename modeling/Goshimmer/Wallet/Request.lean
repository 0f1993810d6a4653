import Goshimmer.Wallet.FailedSend

/-!
# What becomes of a request

`wallet_build_outputs` searches for a remainder address in the remainder field of the caller's
request, and nobody clears the field afterwards. A request which needed a remainder therefore
names an address when it is issued again, and the change of the second payment is lost. Every
other request stays as it was.
-/

namespace Goshimmer

variable (libs : Libraries)

/-- Once the search has looked at an index, the remainder field holds a derived address. -/
theorem Searched.remainder {unspent : UnspentOutputs} {i : UInt64} {am : WalletAm} {remainder : Address}
    {addrIndex : UInt64} {result : WalletAm × Address × UInt64}
    (h : Searched libs unspent i am remainder addrIndex result)
    (hlooked : i ≤ am.lastAddrIndex ∨ emptyByteArray remainder = false) :
    emptyByteArray result.2.1 = false := by
  induction h with
  | ended hend => exact hlooked.resolve_left hend
  | found _ _ => exact emptyByteArray_addressGet _ _ _
  | raised _ _ ih =>
    refine ih (Or.inr ?_)
    rw [amGetNewAddress, amGetAddress_snd]
    exact emptyByteArray_addressGet _ _ _
  | passed _ _ _ _ ih => exact ih (Or.inr (emptyByteArray_addressGet _ _ _))

/-- A request which needs a remainder address and leaves it to a wallet whose cursors are in order. -/
def NeedsRemainder (am : WalletAm) (dest : SendFundsOp) (consumed : UnspentOutputs) : Prop :=
  dest.amount < unspentOutputsBalanceWithColor consumed dest.color ∧
    emptyByteArray dest.remainder = true ∧ am.firstUnspentIdx ≤ am.lastAddrIndex

/-- Building the outputs leaves the request as it was exactly when it needs no remainder. -/
theorem walletBuildOutputs_dest_eq_iff {am am' : WalletAm} {dest dest' : SendFundsOp}
    {consumed : UnspentOutputs} {outputs : List TxOutput}
    (h : walletBuildOutputs libs am dest consumed = some (outputs, am', dest')) :
    dest' = dest ↔ ¬ NeedsRemainder am dest consumed := by
  rcases searched_of_walletBuildOutputs libs h with ⟨addrIndex, hless, hempty, hsearched, hdest⟩ |
    ⟨hnot, -, rfl⟩
  · constructor
    · intro hsame hneeds
      have hfilled := hsearched.remainder libs (Or.inl hneeds.2.2)
      rw [hsame, hempty] at hfilled
      exact Bool.noConfusion hfilled
    · intro hneeds
      have hcursor : ¬ am.firstUnspentIdx ≤ am.lastAddrIndex :=
        fun hcursor => hneeds ⟨hless, hempty, hcursor⟩
      have hstays : dest'.remainder = dest.remainder := hsearched.eq_of_behind libs hcursor
      rw [hdest, hstays]
  · exact ⟨fun _ hneeds => hnot ⟨hneeds.1, hneeds.2.1⟩, fun _ => rfl⟩

variable (env : Env)

/-- From the building of the transaction on, a call leaves behind the request which the building of
the outputs leaves behind. -/
theorem dest_of_spendConsumed {w : Wallet} {dest : SendFundsOp} {consumed : UnspentOutputs}
    {outcome : SendOutcome} (h : spendConsumed libs env w dest consumed = some outcome) :
    ∃ outputs am, walletBuildOutputs libs w.addrManager dest consumed = some (outputs, am, outcome.dest) := by
  unfold spendConsumed at h
  split at h
  · simp at h
  · next tx am dest' htransaction =>
    obtain ⟨⟨outputs, am', dest''⟩, hbuilt, hsigned⟩ := Option.map_eq_some_iff.mp htransaction
    obtain ⟨-, hrest⟩ := Prod.mk.inj hsigned
    obtain ⟨-, rfl⟩ := Prod.mk.inj hrest
    refine ⟨outputs, am', ?_⟩
    dsimp only at h
    split at h
    · rw [← Option.some.inj h]
      exact hbuilt
    · split at h
      · simp at h
      · rw [← Option.some.inj h]
        exact hbuilt

/-- A request which passes the first checks and needs a remainder address from the refreshed
wallet. -/
def FillsRemainder (w : Wallet) (dest : SendFundsOp) : Prop :=
  ¬ (dest.amount = 0 ∨ emptyByteArray dest.receiver = true) ∧
    ∃ synced refreshed, walletRefresh libs env w false = some (synced, refreshed) ∧
      NeedsRemainder refreshed.addrManager dest (consumedOutputs refreshed dest)

/-- A call leaves the request as it was exactly when it needs no remainder address. -/
theorem walletSendFunds_dest_eq_iff {w : Wallet} {dest : SendFundsOp} {outcome : SendOutcome}
    (h : walletSendFunds libs env w dest = some outcome) :
    outcome.dest = dest ↔ ¬ FillsRemainder libs env w dest := by
  unfold walletSendFunds at h
  split at h
  · next hrefused =>
    rw [← Option.some.inj h]
    exact ⟨fun _ hfills => hfills.1 hrefused, fun _ => rfl⟩
  · next hrequest =>
    split at h
    · simp at h
    · next synced refreshed hrefresh =>
      have hfills : FillsRemainder libs env w dest ↔
          NeedsRemainder refreshed.addrManager dest (consumedOutputs refreshed dest) := by
        constructor
        · intro ⟨_, synced', other, hother, hneeds⟩
          obtain ⟨-, rfl⟩ := Prod.mk.inj (Option.some.inj (hother.symm.trans hrefresh))
          exact hneeds
        · exact fun hneeds => ⟨hrequest, synced, refreshed, hrefresh, hneeds⟩
      have hspent : ∀ {outcome : SendOutcome},
          unspentOutputsBalanceWithColor (consumedOutputs refreshed dest) dest.color ≤ dest.amount →
            outcome.dest = dest → (outcome.dest = dest ↔ ¬ FillsRemainder libs env w dest) := by
        intro outcome hle hsame
        refine ⟨fun _ hneeds => ?_, fun _ => hsame⟩
        exact absurd (hfills.mp hneeds).1 (UInt64.not_lt.mpr hle)
      dsimp only at h
      split at h
      · next hempty =>
        rw [← Option.some.inj h]
        refine hspent ?_ rfl
        rw [unspentOutputsBalanceWithColor_of_isEmpty hempty]
        exact UInt64.zero_le
      · split at h
        · next hless =>
          rw [← Option.some.inj h]
          exact hspent (UInt64.le_of_lt hless) rfl
        · obtain ⟨outputs, am, hbuilt⟩ := dest_of_spendConsumed libs env h
          rw [hfills]
          exact walletBuildOutputs_dest_eq_iff libs hbuilt

/-- What a payment of three of five plain tokens leaves behind. -/
def payThreeOfFive : Option SendOutcome :=
  walletSendFunds (sampleLibraries []) unreachable (smallWallet fivePlain) (plainRequest 3)

/-- Three of five plain tokens can be paid, and the call returns. -/
theorem payThreeOfFive_isSome : payThreeOfFive.isSome := by decide +kernel

/-- The characterisation for this payment. -/
theorem walletSendFunds_dest_eq_iff_payThreeOfFive :
    (payThreeOfFive.get payThreeOfFive_isSome).dest = plainRequest 3 ↔
      ¬ FillsRemainder (sampleLibraries []) unreachable (smallWallet fivePlain) (plainRequest 3) :=
  walletSendFunds_dest_eq_iff (sampleLibraries []) unreachable (Option.some_get payThreeOfFive_isSome).symm

/-- The request of this payment names a remainder address afterwards. -/
theorem request_remainder_filled :
    ¬ ∀ (libs : Libraries) (env : Env) (w : Wallet) (dest : SendFundsOp) (outcome : SendOutcome),
      walletSendFunds libs env w dest = some outcome → outcome.dest = dest := by
  intro h
  have hsame : (payThreeOfFive.get payThreeOfFive_isSome).dest = plainRequest 3 :=
    h (sampleLibraries []) unreachable (smallWallet fivePlain) (plainRequest 3) _
      (Option.some_get payThreeOfFive_isSome).symm
  have hfilled : emptyByteArray (payThreeOfFive.get payThreeOfFive_isSome).dest.remainder = false := by
    decide +kernel
  rw [hsame] at hfilled
  revert hfilled
  decide

end Goshimmer
