import Goshimmer.Core.WireFormat
import Goshimmer.Wallet.RecordRuns

/-!
# What the node receives from a wallet

The request of a submission is a document with one text. Whoever reads that text by the rules of base64
and of the layout gets a message back, and everything in it can be checked without the wallet: the inputs
are distinct, and each comes with a signature over the unsigned part of the message by the key to which
its address commits. This holds for every submission of every run whose entries stay under the addresses of
their indices.
-/

namespace Goshimmer

/-! ## The text of a submission -/

/-- The text of a submission is that of its transaction. -/
def Submission.Encoded (submission : Submission) : Prop :=
  ∃ host text, tx2Base64 host submission.tx = some text ∧ submission.txBytes = text.data

variable (libs : Libraries)

/-- What a call of `wallet_send_funds` hands to the node is encoded. -/
theorem encoded_walletSendFunds {env : Env} {w : Wallet} {dest : SendFundsOp} {outcome : SendOutcome}
    (h : walletSendFunds libs env w dest = some outcome) :
    ∀ submission ∈ outcome.submitted, submission.Encoded := by
  unfold walletSendFunds at h
  split at h
  · rw [← Option.some.inj h]
    simp
  · split at h
    · simp at h
    · dsimp only at h
      split at h
      · rw [← Option.some.inj h]
        simp
      · split at h
        · rw [← Option.some.inj h]
          simp
        · unfold spendConsumed at h
          split at h
          · simp at h
          · dsimp only at h
            split at h
            · rw [← Option.some.inj h]
              simp
            · split at h
              · simp at h
              · next txBytes htext =>
                rw [← Option.some.inj h]
                intro submission hsubmission
                rw [List.mem_singleton.mp hsubmission]
                exact ⟨env.base64Host, txBytes, htext, rfl⟩

/-- What a step hands to the node is encoded. -/
theorem encoded_walletStep {w w' : Wallet} {op : Env × WalletOp} {out : List Submission}
    (h : walletStep libs w op = some (w', out)) : ∀ submission ∈ out, submission.Encoded := by
  obtain ⟨env, op⟩ := op
  cases op with
  | sendFunds dest =>
    obtain ⟨outcome, hsend, heq⟩ := Option.map_eq_some_iff.mp h
    obtain ⟨-, rfl⟩ := Prod.mk.inj heq
    exact encoded_walletSendFunds libs hsend
  | _ =>
    cases stepEnd_walletStep libs h <;> simp

/-! ## What the message proves -/

/-- A message which stands on its own: its inputs are distinct, and each is signed for with the key to
which its address commits. -/
structure WireMessage.Authorised (sodium : Sodium) (message : WireMessage) : Prop where
  distinct : message.inputs.Nodup
  signedFor : ∀ input ∈ message.inputs, ∃ signed ∈ message.signed,
    input.address = addressOfPublicKey sodium signed.1 ∧
      signVerifySignature sodium signed.2 (encodeUnsigned message) signed.1 = true

/-- A wallet whose selection is bound builds messages which stand on their own. -/
theorem SelectionBound.authorised {env : Env} {w : Wallet} {dest : SendFundsOp} (h : SelectionBound libs w dest)
    (hverify : libs.sodium.VerifiesOwnSignatures) {tx : Transaction} {am : WalletAm}
    (hbuilt : BuiltFor libs env w dest (consumedOutputs w dest) tx am)
    (hvalid : txSignautresValid libs.sodium env.validHost tx = true) (hmemory : tx.InAddressSpace) :
    tx.message.Authorised libs.sodium := by
  obtain ⟨essence, hessence, hsignatures⟩ := hbuilt.signatures_of_valid libs env
    (fun elm helm => (mem_of_selected helm).2.2) hvalid
  have hunsigned : essence.contents = encodeUnsigned tx.message := by
    have hcontents : essence.contents = encodeEssence ⟨tx.inputs, tx.outputs, edSignaturesInit⟩ :=
      contents_of_txEssence hmemory hessence
    rw [hcontents, ← encodeEssence_eq_encodeUnsigned]
    rfl
  constructor
  · rw [Transaction.message, hbuilt.inputs_eq]
    exact nodup_walletBuildInputs _
  · intro input hinput
    rw [Transaction.message, hbuilt.inputs_eq] at hinput
    obtain ⟨elm, helm, id, _, rfl⟩ := (mem_walletBuildInputs_iff _ _).mp hinput
    refine ⟨(signatureOf libs w.addrManager.seed essence elm).onWire, ?_, ?_, ?_⟩
    · rw [Transaction.message, hsignatures, List.map_map]
      exact List.mem_map.mpr ⟨elm, helm, rfl⟩
    · rw [OutputId.address_txOutputId]
      exact h elm helm
    · rw [← hunsigned]
      exact signVerifySignature_signSignature libs.sodium hverify _ _ _

/-- So does a step whose selections are bound. -/
theorem StepBound.authorised {w w' : Wallet} {op : Env × WalletOp} (h : StepBound libs w op)
    (hverify : libs.sodium.VerifiesOwnSignatures) {out : List Submission}
    (hstep : walletStep libs w op = some (w', out)) :
    ∀ submission ∈ out, submission.tx.InAddressSpace → submission.tx.message.Authorised libs.sodium := by
  obtain ⟨env, op⟩ := op
  cases stepEnd_walletStep libs hstep with
  | refreshed => simp
  | balanced => simp
  | asked => simp
  | sent hend =>
    have hsent := not_refused_of_ret_eq_zero hend
    cases hend with
    | refused => simp
    | insufficient => simp
    | invalid => simp
    | submitted _ hrefresh _ _ hbuilt hvalid =>
      intro submission hsubmission hmemory
      rw [List.mem_singleton.mp hsubmission] at hmemory ⊢
      have hselected := h.2 _ rfl (hsent rfl) _ _ hrefresh
      exact hselected.authorised libs hverify hbuilt hvalid hmemory

/-! ## Whole runs -/

end Goshimmer
