import Goshimmer.Wallet.FailedSend

/-!
# What a transaction consumes

Selection counts the confirmed balance of one colour, but it takes whole addresses: every output
of a selected address becomes an input, whatever its state and colours. The outputs pay the
requested colour alone. So a transaction spends what was counted exactly when every entry which
the selection reaches is confirmed throughout and contributes, and it preserves the other colours
exactly when there are none of them to preserve.
-/

namespace Goshimmer

/-! ## The outputs behind the inputs -/

/-- The output to which an output id refers. -/
def referredOutput (t : UnspentOutputs) (input : OutputId) : Option OutputIdEntry :=
  (unspentOutputsFind t input.address).bind fun elm => outputIdsFind elm.ids input.txId

/-- An output id refers to the output it was made from. -/
theorem referredOutput_txOutputId {t : UnspentOutputs} {elm : UnspentOutputEntry} (helm : elm ∈ t.entries)
    {id : OutputIdEntry} (hid : id ∈ elm.ids.entries) :
    referredOutput t (txOutputId elm.addr id.id) = some id := by
  unfold referredOutput unspentOutputsFind outputIdsFind
  rw [OutputId.address_txOutputId, InsertionTable.find_key_of_mem helm, Option.bind_some,
    OutputId.txId_txOutputId, InsertionTable.find_key_of_mem hid]

/-- The signed total of a colour in a table of balances. -/
def balanceTotal (color : Color) (balances : BalanceHt) : ℤ :=
  (balances.entries.map fun b => if b.color = color then b.value.toInt else 0).sum

/-- The total of a colour over the outputs to which output ids refer. -/
def inputTotal (t : UnspentOutputs) (color : Color) (inputs : List OutputId) : ℤ :=
  (inputs.map fun input => ((referredOutput t input).map fun out => balanceTotal color out.balances).getD 0).sum

/-- The total of a colour over the outputs of a transaction. -/
def outputTotal (color : Color) (outputs : List TxOutput) : ℤ :=
  ((outputs.flatMap TxOutput.balances).map fun b => if b.color = color then b.value.toInt else 0).sum

/-- The total of a colour over all outputs of some entries, whatever their states. -/
def heldTotal (color : Color) (p : List UnspentOutputEntry) : ℤ :=
  (p.map fun elm => (elm.ids.entries.map fun id => balanceTotal color id.balances).sum).sum

/-- The inputs refer to everything which the selected addresses hold. -/
theorem inputTotal_walletBuildInputs {t consumed : UnspentOutputs}
    (hsubset : ∀ elm ∈ consumed.entries, elm ∈ t.entries) (color : Color) :
    inputTotal t color (walletBuildInputs consumed) = heldTotal color consumed.entries := by
  have hentry : ∀ elm ∈ consumed.entries,
      ((elm.ids.entries.map fun id => txOutputId elm.addr id.id).map fun input =>
          ((referredOutput t input).map fun out => balanceTotal color out.balances).getD 0).sum =
        (elm.ids.entries.map fun id => balanceTotal color id.balances).sum := by
    intro elm helm
    rw [List.map_map]
    congr 1
    apply List.map_congr_left
    intro id hid
    rw [Function.comp_apply, referredOutput_txOutputId (hsubset elm helm) hid, Option.map_some,
      Option.getD_some]
  rw [inputTotal, walletBuildInputs, List.map_flatMap, List.flatMap_def, List.sum_flatten, List.map_map,
    heldTotal]
  congr 1
  exact List.map_congr_left hentry

/-- Outputs which pay one colour pay nothing of another. -/
theorem outputTotal_of_ne {outputs : List TxOutput} {paid color : Color}
    (h : ∀ out ∈ outputs, ∀ b ∈ out.balances, b.color = paid) (hne : color ≠ paid) :
    outputTotal color outputs = 0 := by
  apply List.sum_eq_zero
  intro value hvalue
  obtain ⟨b, hb, rfl⟩ := List.mem_map.mp hvalue
  obtain ⟨out, hout, hmem⟩ := List.mem_flatMap.mp hb
  rw [if_neg]
  rw [h out hout b hmem]
  exact Ne.symm hne

/-! ## Submitted transactions -/

variable (libs : Libraries) (env : Env)

/-- What a submitted transaction is, in terms of the wallet right after its refresh. -/
theorem builtFor_of_submitted {w refreshed : Wallet} {dest : SendFundsOp} {outcome : SendOutcome}
    (h : walletSendFunds libs env w dest = some outcome) {synced : Bool}
    (hrefresh : walletRefresh libs env w false = some (synced, refreshed)) {submission : Submission}
    (hsubmitted : submission ∈ outcome.submitted) :
    ∃ am, BuiltFor libs env refreshed dest (consumedOutputs refreshed dest) submission.tx am := by
  have hend := sendEnd_walletSendFunds libs env h
  cases hend with
  | refused => simp at hsubmitted
  | insufficient => simp at hsubmitted
  | invalid => simp at hsubmitted
  | submitted _ hother _ _ hbuilt _ =>
    obtain ⟨-, rfl⟩ := Prod.mk.inj (Option.some.inj (hrefresh.symm.trans hother))
    rw [List.mem_singleton.mp hsubmitted]
    exact ⟨_, hbuilt⟩

/-- The selected entries are entries of the table. -/
theorem mem_of_mem_consumedOutputs {w : Wallet} {dest : SendFundsOp} {elm : UnspentOutputEntry}
    (h : elm ∈ (consumedOutputs w dest).entries) : elm ∈ w.unspent.entries :=
  (mem_of_selected h).1

/-! ## The other colours -/

/-- A submitted transaction preserves every colour which was not requested. -/
def PreservesOtherColors (refreshed : Wallet) (dest : SendFundsOp) (tx : Transaction) : Prop :=
  ∀ color, color ≠ dest.color →
    inputTotal refreshed.unspent color tx.inputs = outputTotal color tx.outputs

/-- A call which submits has passed the tests of the refreshed wallet. -/
theorem passesBalanceCheck_of_submitted {w refreshed : Wallet} {dest : SendFundsOp} {outcome : SendOutcome}
    (h : walletSendFunds libs env w dest = some outcome) {synced : Bool}
    (hrefresh : walletRefresh libs env w false = some (synced, refreshed)) {submission : Submission}
    (hsubmitted : submission ∈ outcome.submitted) : PassesBalanceCheck refreshed dest := by
  cases sendEnd_walletSendFunds libs env h with
  | refused => simp at hsubmitted
  | insufficient => simp at hsubmitted
  | invalid => simp at hsubmitted
  | submitted _ hother hbalance hconsumed _ _ =>
    obtain ⟨-, rfl⟩ := Prod.mk.inj (Option.some.inj (hrefresh.symm.trans hother))
    exact ⟨hconsumed, hbalance⟩

/-- The entries which a payment takes, from the first eligible one up to the one which covers the amount, hold
nothing of the other colours in total. -/
def TakesOneColor (t : UnspentOutputs) (dest : SendFundsOp) : Prop :=
  ∀ p, Takes t dest p → ∀ color, color ≠ dest.color → heldTotal color p = 0

/-- The other colours are preserved exactly when the entries which the payment takes hold nothing of them. -/
theorem preservesOtherColors_iff {w refreshed : Wallet} {dest : SendFundsOp} {outcome : SendOutcome}
    (h : walletSendFunds libs env w dest = some outcome) {synced : Bool}
    (hrefresh : walletRefresh libs env w false = some (synced, refreshed)) {submission : Submission}
    (hsubmitted : submission ∈ outcome.submitted) :
    PreservesOtherColors refreshed dest submission.tx ↔ TakesOneColor refreshed.unspent dest := by
  obtain ⟨am, hbuilt⟩ := builtFor_of_submitted libs env h hrefresh hsubmitted
  have hpasses := passesBalanceCheck_of_submitted libs env h hrefresh hsubmitted
  have hinputs : ∀ color, inputTotal refreshed.unspent color submission.tx.inputs =
      heldTotal color (consumedOutputs refreshed dest).entries := by
    intro color
    rw [hbuilt.inputs_eq]
    exact inputTotal_walletBuildInputs (fun _ => mem_of_mem_consumedOutputs) color
  constructor
  · intro hpreserved p htakes color hne
    obtain ⟨-, rfl⟩ := takes_iff.mp htakes
    rw [← hinputs color, hpreserved color hne, outputTotal_of_ne hbuilt.color_eq hne]
  · intro hnothing color hne
    rw [hinputs color, hnothing _ (takes_iff.mpr ⟨hpasses, rfl⟩) color hne, outputTotal_of_ne hbuilt.color_eq hne]

/-- A second colour. -/
def red : Color := repeatedByte 32 82

/-- A wallet with five plain tokens at its address, and seven red ones at another address. -/
def redBehind : Wallet :=
  { smallWallet fivePlain with
    unspent := (unspentOutputsAdd (smallWallet fivePlain).unspent
      (addressGet transparentSodium (Bytes.zero 32) 1) 1 (withOutput outputIdsInit 8 true [⟨7, red⟩])).2 }

/-- Its five plain tokens can be paid. -/
theorem isSome_walletSendFunds_redBehind :
    (walletSendFunds (sampleLibraries []) unreachable redBehind (plainRequest 5)).isSome := by decide +kernel

/-- The payment takes the first address alone, so the red tokens stay where they are. -/
theorem preservesOtherColors_iff_redBehind :
    PreservesOtherColors redBehind (plainRequest 5)
      (((walletSendFunds (sampleLibraries []) unreachable redBehind (plainRequest 5)).get
        isSome_walletSendFunds_redBehind).submitted.head (by decide +kernel)).tx := by
  apply (preservesOtherColors_iff (sampleLibraries []) unreachable
    (Option.some_get isSome_walletSendFunds_redBehind).symm (walletRefresh_unreachable_eq rfl)
    (List.head_mem _)).mpr
  intro p htakes color hne
  obtain ⟨-, rfl⟩ := takes_iff.mp htakes
  have hcolors : ∀ elm ∈ (consumedOutputs redBehind (plainRequest 5)).entries, ∀ id ∈ elm.ids.entries,
      ∀ b ∈ id.balances.entries, b.color = plain := by
    decide
  apply List.sum_eq_zero
  intro held hheld
  obtain ⟨elm, helm, rfl⟩ := List.mem_map.mp hheld
  apply List.sum_eq_zero
  intro total htotal
  obtain ⟨id, hid, rfl⟩ := List.mem_map.mp htotal
  apply List.sum_eq_zero
  intro value hvalue
  obtain ⟨b, hb, rfl⟩ := List.mem_map.mp hvalue
  rw [if_neg]
  rw [hcolors elm helm id hid b hb]
  exact Ne.symm hne

/-- One confirmed output of five plain and seven red tokens. -/
def fivePlainSevenRed : OutputIds := withOutput outputIdsInit 7 true [⟨5, plain⟩, ⟨7, red⟩]

/-- The seven red tokens beside the five plain ones are in no output. -/
theorem other_color_lost :
    ¬ ∀ (libs : Libraries) (env : Env) (w refreshed : Wallet) (dest : SendFundsOp)
      (outcome : SendOutcome) (synced : Bool) (submission : Submission),
      walletSendFunds libs env w dest = some outcome →
        walletRefresh libs env w false = some (synced, refreshed) → submission ∈ outcome.submitted →
          PreservesOtherColors refreshed dest submission.tx := by
  intro h
  have hlost : ∃ outcome ∈ payFive fivePlainSevenRed, ∃ submission ∈ outcome.submitted,
      inputTotal (smallWallet fivePlainSevenRed).unspent red submission.tx.inputs ≠
        outputTotal red submission.tx.outputs := by
    decide +kernel
  obtain ⟨outcome, hsend, submission, hsubmitted, hdiffers⟩ := hlost
  exact hdiffers (h (sampleLibraries []) unreachable (smallWallet fivePlainSevenRed)
    (smallWallet fivePlainSevenRed) (plainRequest 5) outcome true submission hsend
    (walletRefresh_unreachable _) hsubmitted red (by decide))

/-! ## Counted and spent -/

/-- Every input refers to a confirmed output, and every consumed address contributes to the sum. -/
def SpendsWhatCounts (refreshed : Wallet) (dest : SendFundsOp) (tx : Transaction) : Prop :=
  (∀ input ∈ tx.inputs, ∃ out, referredOutput refreshed.unspent input = some out ∧
    out.st.confirmed = true) ∧
    ∀ elm ∈ (consumedOutputs refreshed dest).entries, 0 < elm.contribution dest.color

/-- Every eligible entry which is reached before the amount is covered has confirmed outputs alone
and contributes to the sum. -/
def ReachedEntriesCount (t : UnspentOutputs) (dest : SendFundsOp) : Prop :=
  ∀ before elm after, t.eligible = before ++ elm :: after →
    (∀ shorter, shorter ≠ [] → shorter <+: before →
      (shorter.map (UnspentOutputEntry.contribution dest.color)).sum < dest.amount) →
    (∀ out ∈ elm.ids.entries, out.st.confirmed = true) ∧ 0 < elm.contribution dest.color

/-- An entry is selected exactly when it is reached before the amount is covered. -/
theorem mem_consumedOutputs_iff (w : Wallet) (dest : SendFundsOp) (elm : UnspentOutputEntry) :
    elm ∈ (consumedOutputs w dest).entries ↔
      ∃ before after, w.unspent.eligible = before ++ elm :: after ∧
        ∀ shorter, shorter ≠ [] → shorter <+: before →
          (shorter.map (UnspentOutputEntry.contribution dest.color)).sum < dest.amount := by
  rw [consumedOutputs, entries_unspentOutputsRequiredOutputs, mem_coveringPrefix_iff]
  simp only [zero_add, decide_eq_false_iff_not, UInt64.not_le]

/-- A transaction spends what was counted exactly when every entry reached counts. -/
theorem spendsWhatCounts_iff {w refreshed : Wallet} {dest : SendFundsOp} {outcome : SendOutcome}
    (h : walletSendFunds libs env w dest = some outcome) {synced : Bool}
    (hrefresh : walletRefresh libs env w false = some (synced, refreshed)) {submission : Submission}
    (hsubmitted : submission ∈ outcome.submitted) :
    SpendsWhatCounts refreshed dest submission.tx ↔ ReachedEntriesCount refreshed.unspent dest := by
  obtain ⟨am, hbuilt⟩ := builtFor_of_submitted libs env h hrefresh hsubmitted
  have hconfirmed : (∀ input ∈ submission.tx.inputs, ∃ out,
      referredOutput refreshed.unspent input = some out ∧ out.st.confirmed = true) ↔
        ∀ elm ∈ (consumedOutputs refreshed dest).entries, ∀ out ∈ elm.ids.entries,
          out.st.confirmed = true := by
    rw [hbuilt.inputs_eq]
    constructor
    · intro hall elm helm out hout
      obtain ⟨other, hother, hst⟩ := hall (txOutputId elm.addr out.id)
        ((mem_walletBuildInputs_iff _ _).mpr ⟨elm, helm, out, hout, rfl⟩)
      rw [referredOutput_txOutputId (mem_of_mem_consumedOutputs helm) hout] at hother
      exact Option.some.inj hother ▸ hst
    · intro hall input hinput
      obtain ⟨elm, helm, out, hout, rfl⟩ := (mem_walletBuildInputs_iff _ _).mp hinput
      exact ⟨out, referredOutput_txOutputId (mem_of_mem_consumedOutputs helm) hout,
        hall elm helm out hout⟩
  unfold SpendsWhatCounts ReachedEntriesCount
  rw [hconfirmed]
  constructor
  · intro ⟨hall, hcontribute⟩ before elm after heligible hreached
    have helm := (mem_consumedOutputs_iff refreshed dest elm).mpr ⟨before, after, heligible, hreached⟩
    exact ⟨hall elm helm, hcontribute elm helm⟩
  · intro hreach
    have hselected : ∀ elm ∈ (consumedOutputs refreshed dest).entries,
        (∀ out ∈ elm.ids.entries, out.st.confirmed = true) ∧ 0 < elm.contribution dest.color := by
      intro elm helm
      obtain ⟨before, after, heligible, hreached⟩ := (mem_consumedOutputs_iff refreshed dest elm).mp helm
      exact hreach before elm after heligible hreached
    exact ⟨fun elm helm => (hselected elm helm).1, fun elm helm => (hselected elm helm).2⟩

/-- Five confirmed plain tokens: the payment spends what was counted exactly as its one entry
counts. -/
theorem spendsWhatCounts_iff_fivePlain :
    SpendsWhatCounts (smallWallet fivePlain) (plainRequest 5)
        (((payFive fivePlain).get payFive_fivePlain_isSome).submitted.head (by decide +kernel)).tx ↔
      ReachedEntriesCount (smallWallet fivePlain).unspent (plainRequest 5) :=
  spendsWhatCounts_iff (sampleLibraries []) unreachable (Option.some_get payFive_fivePlain_isSome).symm
    (walletRefresh_unreachable fivePlain) (List.head_mem _)

/-- A confirmed output of five plain tokens, and one of two which is not confirmed. -/
def fiveAndPending : OutputIds := withOutput fivePlain 8 false [⟨2, plain⟩]

/-- The pending output beside the confirmed one becomes an input. -/
theorem pending_output_spent :
    ¬ ∀ (libs : Libraries) (env : Env) (w refreshed : Wallet) (dest : SendFundsOp)
      (outcome : SendOutcome) (synced : Bool) (submission : Submission),
      walletSendFunds libs env w dest = some outcome →
        walletRefresh libs env w false = some (synced, refreshed) → submission ∈ outcome.submitted →
          SpendsWhatCounts refreshed dest submission.tx := by
  intro h
  have hpending : ∃ outcome ∈ payFive fiveAndPending, ∃ submission ∈ outcome.submitted,
      ∃ input ∈ submission.tx.inputs, ((referredOutput (smallWallet fiveAndPending).unspent input).map
        fun out => out.st.confirmed) = some false := by
    decide +kernel
  obtain ⟨outcome, hsend, submission, hsubmitted, input, hinput, hstate⟩ := hpending
  have hcounts := h (sampleLibraries []) unreachable (smallWallet fiveAndPending)
    (smallWallet fiveAndPending) (plainRequest 5) outcome true submission hsend
    (walletRefresh_unreachable _) hsubmitted
  obtain ⟨out, hout, hconfirmed⟩ := hcounts.1 input hinput
  rw [hout, Option.map_some, hconfirmed] at hstate
  simp at hstate

end Goshimmer
