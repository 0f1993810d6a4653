import Goshimmer.Wallet.FailedSend
import Goshimmer.Wallet.Runs

/-!
# What a step changes in the wallet

A step leaves the address manager as it was, asks it for addresses, or marks what a send consumed.
Building the outputs only ever asks for new addresses. What survives asking and marking therefore
holds of the address manager after every step.
-/

namespace Goshimmer

variable (libs : Libraries)

/-! ## What a send leaves of the wallet -/

variable (env : Env)

/-- The return codes of `wallet_send_funds`, with the wallets which a call can leave behind. -/
inductive SendChange (w : Wallet) (dest : SendFundsOp) : Int → Wallet → Prop
  /-- The request is refused. -/
  | unchanged : SendChange w dest (-1) w
  /-- The wallet was refreshed, and the selection does not reach the amount. -/
  | refreshed {synced : Bool} {refreshed : Wallet}
      (hrefresh : walletRefresh libs env w false = some (synced, refreshed)) : SendChange w dest (-1) refreshed
  /-- The outputs were built, and the transaction does not validate. -/
  | built {synced : Bool} {refreshed : Wallet} {outputs : List TxOutput} {am : WalletAm}
      {dest' : SendFundsOp} (hrefresh : walletRefresh libs env w false = some (synced, refreshed))
      (hbuilt : walletBuildOutputs libs refreshed.addrManager dest (consumedOutputs refreshed dest) =
        some (outputs, am, dest')) :
      SendChange w dest (-1) { refreshed with addrManager := am }
  /-- The transaction was handed to the node, and the selection was marked. -/
  | marked {synced : Bool} {refreshed : Wallet} {outputs : List TxOutput} {am : WalletAm}
      {dest' : SendFundsOp} (hsent : ¬ RefusedBeforeSending libs env w dest)
      (hrefresh : walletRefresh libs env w false = some (synced, refreshed))
      (hbuilt : walletBuildOutputs libs refreshed.addrManager dest (consumedOutputs refreshed dest) =
        some (outputs, am, dest')) :
      SendChange w dest 0 (markConsumed env.heap { refreshed with addrManager := am }
        (consumedOutputs refreshed dest))

/-- Every call which returns leaves one of these behind. -/
theorem sendChange_walletSendFunds {w : Wallet} {dest : SendFundsOp} {outcome : SendOutcome}
    (h : walletSendFunds libs env w dest = some outcome) :
    SendChange libs env w dest outcome.ret outcome.wallet := by
  have hsent := not_refused_of_ret_eq_zero (sendEnd_walletSendFunds libs env h)
  unfold walletSendFunds at h
  split at h
  · rw [← Option.some.inj h]
    exact .unchanged
  · split at h
    · simp at h
    · next synced refreshed hrefresh =>
      dsimp only at h
      split at h
      · rw [← Option.some.inj h]
        exact .refreshed hrefresh
      · split at h
        · rw [← Option.some.inj h]
          exact .refreshed hrefresh
        · unfold spendConsumed at h
          split at h
          · simp at h
          · next tx am dest' htransaction =>
            obtain ⟨⟨outputs, am', dest''⟩, hbuilt, hsigned⟩ := Option.map_eq_some_iff.mp htransaction
            obtain ⟨-, hrest⟩ := Prod.mk.inj hsigned
            obtain ⟨rfl, -⟩ := Prod.mk.inj hrest
            dsimp only at h
            split at h
            · rw [← Option.some.inj h]
              exact .built hrefresh hbuilt
            · split at h
              · simp at h
              · rw [← Option.some.inj h] at hsent ⊢
                exact .marked (hsent rfl) hrefresh hbuilt

/-- The wallets which a step can leave behind. -/
inductive StepChange (w : Wallet) : WalletOp → Wallet → Prop
  /-- A refresh. -/
  | refreshed {includeSpent synced : Bool} {w' : Wallet}
      (hrefresh : walletRefresh libs env w includeSpent = some (synced, w')) :
      StepChange w (.refresh includeSpent) w'
  /-- A balance, which is read after a refresh. -/
  | balanced {synced : Bool} {w' : Wallet}
      (hrefresh : walletRefresh libs env w false = some (synced, w')) : StepChange w .balance w'
  /-- An address. -/
  | asked {op : WalletOp} {index : UInt64} (hindex : op.askedIndex w.addrManager = some index) :
      StepChange w op { w with addrManager := (amGetAddress libs.sodium w.addrManager index).1 }
  /-- A call of `wallet_send_funds`. -/
  | sent {dest : SendFundsOp} {ret : Int} {w' : Wallet} (hchange : SendChange libs env w dest ret w') :
      StepChange w (.sendFunds dest) w'

/-- Every step which returns leaves one of these behind. -/
theorem stepChange_walletStep {w w' : Wallet} {op : WalletOp} {out : List Submission}
    (h : walletStep libs w (env, op) = some (w', out)) : StepChange libs env w op w' := by
  cases op with
  | sendFunds dest =>
    obtain ⟨outcome, hsend, heq⟩ := Option.map_eq_some_iff.mp h
    rw [← (Prod.mk.inj heq).1]
    exact .sent (sendChange_walletSendFunds libs env hsend)
  | _ =>
    cases stepEnd_walletStep libs h <;> first
      | exact .refreshed (by assumption)
      | exact .balanced (by assumption)
      | exact .asked (by assumption)

/-- What holds of a wallet and survives the marking of each consumed entry holds after the marking
loop. -/
theorem markConsumed_invariant (inv : Wallet → Prop) (heap : UInt64 → Byte) {w : Wallet}
    {consumed : UnspentOutputs} (hstart : inv w)
    (hstep : ∀ w, ∀ elm ∈ consumed.entries, inv w → inv
      { w with
        unspent := unspentOutputsSetSpent w.unspent elm.addr true
        addrManager := amMarkSpentAddress heap w.addrManager elm.addrIndex }) :
    inv (markConsumed heap w consumed) := by
  unfold markConsumed
  generalize consumed.entries = l at hstep
  induction l generalizing w with
  | nil => exact hstart
  | cons elm rest ih =>
    rw [List.foldl_cons]
    exact ih (hstep w elm List.mem_cons_self hstart)
      fun w other hother => hstep w other (List.mem_cons_of_mem _ hother)

/-- The marking loop keeps the largest index. -/
@[simp] theorem lastAddrIndex_markConsumed (heap : UInt64 → Byte) (w : Wallet) (consumed : UnspentOutputs) :
    (markConsumed heap w consumed).addrManager.lastAddrIndex = w.addrManager.lastAddrIndex :=
  markConsumed_invariant (fun w' => w'.addrManager.lastAddrIndex = w.addrManager.lastAddrIndex) heap rfl
    fun _ _ _ hw => (lastAddrIndex_amMarkSpentAddress heap _ _).trans hw

/-- The marking loop sets the bits of the recorded indices. -/
theorem spentAddr_markConsumed (heap : UInt64 → Byte) (w : Wallet) (consumed : UnspentOutputs) :
    (markConsumed heap w consumed).addrManager.spentAddr =
      w.addrManager.spentAddr.setAll (consumed.entries.map UnspentOutputEntry.addrIndex) := by
  unfold markConsumed Bitmask.setAll
  generalize consumed.entries = l
  induction l generalizing w with
  | nil => rfl
  | cons elm rest ih =>
    rw [List.foldl_cons, ih, (spentAddr_amMarkSpentAddress _ _ _).1, List.map_cons, List.foldl_cons]

/-- What holds of an address manager and survives asking for an address and marking an index holds after
every step. -/
theorem addrManager_invariant (inv : WalletAm → Prop)
    (hask : ∀ am index, inv am → inv (amGetAddress libs.sodium am index).1)
    (hmark : ∀ heap am index, inv am → inv (amMarkSpentAddress heap am index)) {w w' : Wallet}
    (h : inv w.addrManager) {op : Env × WalletOp} {out : List Submission}
    (hstep : walletStep libs w op = some (w', out)) : inv w'.addrManager := by
  obtain ⟨env, op⟩ := op
  have hrefreshed : ∀ {includeSpent synced : Bool} {refreshed : Wallet},
      walletRefresh libs env w includeSpent = some (synced, refreshed) → inv refreshed.addrManager := by
    intro includeSpent synced refreshed hrefresh
    rwa [addrManager_walletRefresh libs env hrefresh]
  have hbuilt : ∀ {synced : Bool} {refreshed : Wallet} {dest dest' : SendFundsOp} {outputs : List TxOutput}
      {am : WalletAm}, walletRefresh libs env w false = some (synced, refreshed) →
        walletBuildOutputs libs refreshed.addrManager dest (consumedOutputs refreshed dest) =
          some (outputs, am, dest') → inv am := by
    intro synced refreshed dest dest' outputs am hrefresh hbuild
    exact (askedNew_walletBuildOutputs libs hbuild).invariant libs inv (hrefreshed hrefresh)
      fun am ham => hask am _ ham
  cases stepChange_walletStep libs env hstep with
  | refreshed hrefresh => exact hrefreshed hrefresh
  | balanced hrefresh => exact hrefreshed hrefresh
  | asked _ => exact hask _ _ h
  | sent hchange =>
    cases hchange with
    | unchanged => exact h
    | refreshed hrefresh => exact hrefreshed hrefresh
    | built hrefresh hbuild => exact hbuilt hrefresh hbuild
    | @marked synced refreshed outputs am dest' _ hrefresh hbuild =>
      have ham : inv ({ refreshed with addrManager := am } : Wallet).addrManager := hbuilt hrefresh hbuild
      exact markConsumed_invariant (fun w => inv w.addrManager) env.heap ham
        fun w elm _ hw => hmark env.heap w.addrManager elm.addrIndex hw

end Goshimmer
