import Goshimmer.Wallet.RemainderSearch
import Goshimmer.Wallet.Signing

/-!
# The ways a call of `wallet_send_funds` can end

A call which returns has refused the request, has found too little, has built a transaction that
does not validate, or has handed one to the node. Everything later about sending is a case
analysis over these four ends. Only the last one marks anything as spent, and it always reports
success.
-/

namespace Goshimmer

variable (libs : Libraries)

/-! ## Building the transaction -/

/-- Every output pays the requested colour alone, and the address manager keeps its seed and marks
nothing. -/
theorem walletBuildOutputs_keeps {am am' : WalletAm} {dest dest' : SendFundsOp}
    {consumed : UnspentOutputs} {outputs : List TxOutput}
    (h : walletBuildOutputs libs am dest consumed = some (outputs, am', dest')) :
    (∀ out ∈ outputs, ∀ b ∈ out.balances, b.color = dest.color) ∧ am'.seed = am.seed ∧
      ∀ j, am'.spentAddr.marked j = true → am.spentAddr.marked j = true := by
  have hkeeps : am'.seed = am.seed ∧ ∀ j, am'.spentAddr.marked j = true → am.spentAddr.marked j = true :=
    (askedNew_walletBuildOutputs libs h).invariant libs
      (fun am' => am'.seed = am.seed ∧ ∀ j, am'.spentAddr.marked j = true → am.spentAddr.marked j = true)
      ⟨rfl, fun _ hj => hj⟩ fun am₁ ham => ⟨(seed_amGetAddress _ _ _).trans ham.1,
        fun j hj => ham.2 j (marked_of_marked_amGetAddress libs.sodium hj)⟩
  refine ⟨?_, hkeeps⟩
  unfold walletBuildOutputs at h
  dsimp only at h
  split at h
  · unfold buildRemainder at h
    cases hsearch : remainderSearch libs consumed searchFuel am.firstUnspentIdx am dest.remainder 0 with
    | none => simp [hsearch] at h
    | some found =>
      simp only [hsearch, Option.bind_eq_bind, Option.bind_some] at h
      split at h
      · obtain ⟨rfl, -, -⟩ := by simpa using h
        simp [singleOutput]
      · obtain ⟨rfl, -, -⟩ := by simpa using h
        simp [singleOutput, receiverOutput]
  · obtain ⟨rfl, -, -⟩ := by simpa using h
    simp [singleOutput, receiverOutput]

variable (env : Env)

/-- A transaction which the wallet built for a selection: its inputs are the output ids of the
selected addresses, its outputs pay the requested colour, and it is signed as far as the essence
could be computed and the entries got memory. The address manager keeps its seed and marks nothing. -/
structure BuiltFor (w : Wallet) (dest : SendFundsOp) (consumed : UnspentOutputs) (tx : Transaction)
    (am : WalletAm) : Prop where
  inputs_eq : tx.inputs = walletBuildInputs consumed
  color_eq : ∀ out ∈ tx.outputs, ∀ b ∈ out.balances, b.color = dest.color
  signed : tx = (walletSignTx libs env.signHost env.signGranted w.addrManager.seed
    ⟨tx.inputs, tx.outputs, edSignaturesInit⟩ consumed).2
  seed_eq : am.seed = w.addrManager.seed
  marked : ∀ j, am.spentAddr.marked j = true → w.addrManager.spentAddr.marked j = true

/-- What the building of a transaction yields. -/
theorem builtFor_buildTransaction {w : Wallet} {dest dest' : SendFundsOp} {consumed : UnspentOutputs}
    {tx : Transaction} {am : WalletAm}
    (h : buildTransaction libs env w dest consumed = some (tx, am, dest')) :
    BuiltFor libs env w dest consumed tx am := by
  unfold buildTransaction at h
  cases hbuilt : walletBuildOutputs libs w.addrManager dest consumed with
  | none => simp [hbuilt] at h
  | some found =>
    obtain ⟨outputs, am₁, dest₁⟩ := found
    obtain ⟨hcolor, hseed, hmarked⟩ := walletBuildOutputs_keeps libs hbuilt
    rw [hbuilt, Option.map_some] at h
    obtain ⟨htx, hrest⟩ := Prod.mk.inj (Option.some.inj h)
    obtain ⟨rfl, -⟩ := Prod.mk.inj hrest
    have hinputs : tx.inputs = walletBuildInputs consumed := by
      rw [← htx, walletSignTx_eta]
    have houtputs : tx.outputs = outputs := by
      rw [← htx, walletSignTx_eta]
    refine ⟨hinputs, by rwa [houtputs], ?_, hseed, hmarked⟩
    rw [hinputs, houtputs, ← hseed]
    exact htx.symm

/-- A built transaction which validates was signed over its essence. -/
theorem BuiltFor.essence_of_valid {w : Wallet} {dest : SendFundsOp} {consumed : UnspentOutputs}
    {tx : Transaction} {am : WalletAm} (h : BuiltFor libs env w dest consumed tx am)
    (hvalid : txSignautresValid libs.sodium env.validHost tx = true) :
    (txEssence env.signHost ⟨tx.inputs, tx.outputs, edSignaturesInit⟩).isSome := by
  cases hessence : txEssence env.signHost ⟨tx.inputs, tx.outputs, edSignaturesInit⟩ with
  | some essence => rfl
  | none =>
    rw [h.signed, txSignautresValid_walletSignTx_of_none libs hessence rfl] at hvalid
    simp at hvalid

/-- The signing of a number of entries gets what it asks for: the byte order and the memory for the essence, and
the memory for every entry. -/
def SigningSucceeds (env : Env) (count : ℕ) : Prop :=
  env.signHost.littleEndian = true ∧ env.signHost.alloc.granted = true ∧
    ∀ call < count, env.signGranted call = true

/-- Where a built transaction validates the signing got what it asked for. -/
theorem BuiltFor.signingSucceeds_of_valid {w : Wallet} {dest : SendFundsOp} {consumed : UnspentOutputs}
    {tx : Transaction} {am : WalletAm} (h : BuiltFor libs env w dest consumed tx am)
    (hids : ∀ elm ∈ consumed.entries, elm.ids.entries ≠ [])
    (hvalid : txSignautresValid libs.sodium env.validHost tx = true) :
    SigningSucceeds env consumed.entries.length := by
  have hessence := h.essence_of_valid libs env hvalid
  obtain ⟨hgranted, hendian⟩ := (txEssence_isSome_iff env.signHost _).mp hessence
  rw [congrArg (txSignautresValid libs.sodium env.validHost) h.signed] at hvalid
  exact ⟨hendian, hgranted, (all_signed_iff libs hessence env.signGranted consumed).mp
    (all_signed_of_valid libs h.inputs_eq hids hvalid)⟩

/-- Where a built transaction validates, the essence was signed for every selected address. -/
theorem BuiltFor.signatures_of_valid {w : Wallet} {dest : SendFundsOp} {consumed : UnspentOutputs}
    {tx : Transaction} {am : WalletAm} (h : BuiltFor libs env w dest consumed tx am)
    (hids : ∀ elm ∈ consumed.entries, elm.ids.entries ≠ [])
    (hvalid : txSignautresValid libs.sodium env.validHost tx = true) :
    ∃ essence, txEssence env.signHost ⟨tx.inputs, tx.outputs, edSignaturesInit⟩ = some essence ∧
      tx.signatures.entries = consumed.entries.map (signatureOf libs w.addrManager.seed essence) := by
  obtain ⟨essence, hessence⟩ := Option.isSome_iff_exists.mp (h.essence_of_valid libs env hvalid)
  have hgranted := (h.signingSucceeds_of_valid libs env hids hvalid).2.2
  refine ⟨essence, hessence, ?_⟩
  rw [congrArg Transaction.signatures h.signed, signatures_walletSignTx libs hessence hgranted]

/-- The built transaction validates exactly when the signing got what it asked for. -/
theorem BuiltFor.valid_iff {w : Wallet} {dest : SendFundsOp} {consumed : UnspentOutputs}
    {tx : Transaction} {am : WalletAm} (h : BuiltFor libs env w dest consumed tx am)
    (hverify : libs.sodium.VerifiesOwnSignatures) (hids : ∀ elm ∈ consumed.entries, elm.ids.entries ≠ [])
    (hconsumed : consumed.isEmpty = false) :
    txSignautresValid libs.sodium env.validHost tx = true ↔ SigningSucceeds env consumed.entries.length := by
  refine ⟨h.signingSucceeds_of_valid libs env hids, fun ⟨hendian, hgranted, hentries⟩ => ?_⟩
  have hessence := (txEssence_isSome_iff env.signHost ⟨tx.inputs, tx.outputs, edSignaturesInit⟩).mpr
    ⟨hgranted, hendian⟩
  rw [congrArg (txSignautresValid libs.sodium env.validHost) h.signed]
  exact (txSignautresValid_walletSignTx_iff libs hverify hessence _ _ h.inputs_eq hids hconsumed _).mpr hentries

/-! ## The four ends -/

/-- The ways a call which returns can end. -/
inductive SendEnd (w : Wallet) (dest : SendFundsOp) : SendOutcome → Prop
  /-- The request has no amount or no receiver. -/
  | refused (hrequest : dest.amount = 0 ∨ emptyByteArray dest.receiver = true) :
      SendEnd w dest ⟨-1, w, dest, []⟩
  /-- The selection does not reach the amount. -/
  | insufficient {synced : Bool} {refreshed : Wallet}
      (hrequest : ¬ (dest.amount = 0 ∨ emptyByteArray dest.receiver = true))
      (hrefresh : walletRefresh libs env w false = some (synced, refreshed))
      (hbalance : unspentOutputsBalanceWithColor (consumedOutputs refreshed dest) dest.color < dest.amount) :
      SendEnd w dest ⟨-1, refreshed, dest, []⟩
  /-- The transaction does not validate. -/
  | invalid {synced : Bool} {refreshed : Wallet} {tx : Transaction} {am : WalletAm} {dest' : SendFundsOp}
      (hrequest : ¬ (dest.amount = 0 ∨ emptyByteArray dest.receiver = true))
      (hrefresh : walletRefresh libs env w false = some (synced, refreshed))
      (hbalance : dest.amount ≤ unspentOutputsBalanceWithColor (consumedOutputs refreshed dest) dest.color)
      (hconsumed : (consumedOutputs refreshed dest).isEmpty = false)
      (hbuilt : BuiltFor libs env refreshed dest (consumedOutputs refreshed dest) tx am)
      (hvalid : txSignautresValid libs.sodium env.validHost tx = false) :
      SendEnd w dest ⟨-1, { refreshed with addrManager := am }, dest', []⟩
  /-- The transaction is handed to the node, and its addresses are marked. -/
  | submitted {synced : Bool} {refreshed : Wallet} {tx : Transaction} {am : WalletAm}
      {dest' : SendFundsOp} {txBytes : List Byte} {ret : Int}
      (hrequest : ¬ (dest.amount = 0 ∨ emptyByteArray dest.receiver = true))
      (hrefresh : walletRefresh libs env w false = some (synced, refreshed))
      (hbalance : dest.amount ≤ unspentOutputsBalanceWithColor (consumedOutputs refreshed dest) dest.color)
      (hconsumed : (consumedOutputs refreshed dest).isEmpty = false)
      (hbuilt : BuiltFor libs env refreshed dest (consumedOutputs refreshed dest) tx am)
      (hvalid : txSignautresValid libs.sodium env.validHost tx = true) :
      SendEnd w dest ⟨0, markConsumed env.heap { refreshed with addrManager := am }
        (consumedOutputs refreshed dest), dest', [⟨tx, txBytes, ret⟩]⟩

/-- An empty selection has no balance. -/
theorem unspentOutputsBalanceWithColor_of_isEmpty {t : UnspentOutputs} (h : t.isEmpty = true)
    (color : Color) : unspentOutputsBalanceWithColor t color = 0 := by
  rw [unspentOutputsBalanceWithColor, List.isEmpty_iff.mp h]
  rfl

/-- Every call which returns ends in one of the four ways. -/
theorem sendEnd_walletSendFunds {w : Wallet} {dest : SendFundsOp} {outcome : SendOutcome}
    (h : walletSendFunds libs env w dest = some outcome) : SendEnd libs env w dest outcome := by
  unfold walletSendFunds at h
  split at h
  · next hrequest =>
    rw [← Option.some.inj h]
    exact .refused hrequest
  · next hrequest =>
    split at h
    · simp at h
    · next synced refreshed hrefresh =>
      dsimp only at h
      split at h
      · next hempty =>
        rw [← Option.some.inj h]
        apply SendEnd.insufficient hrequest hrefresh
        rw [unspentOutputsBalanceWithColor_of_isEmpty hempty, UInt64.pos_iff_ne_zero]
        exact fun hzero => hrequest (Or.inl hzero)
      · next hnonempty =>
        have hconsumed := Bool.eq_false_iff.mpr hnonempty
        split at h
        · next hbalance =>
          rw [← Option.some.inj h]
          exact .insufficient hrequest hrefresh hbalance
        · next hbalance =>
          have hcovered := UInt64.not_lt.mp hbalance
          unfold spendConsumed at h
          split at h
          · simp at h
          · next tx am dest' htransaction =>
            have hbuilt := builtFor_buildTransaction libs env htransaction
            dsimp only at h
            split at h
            · next hvalid =>
              rw [← Option.some.inj h]
              exact .invalid hrequest hrefresh hcovered hconsumed hbuilt hvalid
            · next hvalid =>
              split at h
              · simp at h
              · rw [← Option.some.inj h]
                exact .submitted hrequest hrefresh hcovered hconsumed hbuilt
                  (Bool.not_eq_false _ ▸ hvalid)

end Goshimmer
