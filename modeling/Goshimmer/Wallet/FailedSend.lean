import Goshimmer.Core.Selection
import Goshimmer.Wallet.Outputs
import Goshimmer.Wallet.SendCases

/-!
# What a failed send leaves behind

The verdict of the node never reaches the caller: `send_tx_bytes` drops the code of the decoder,
and `wallet_send_funds` uses the code of `send_tx_bytes` for a message only. So a send which the
node does not accept still reports success and still retires the consumed addresses. It leaves
no trace exactly when the wallet itself refuses the request before anything is sent.
-/

namespace Goshimmer

variable (libs : Libraries) (env : Env)

/-- The node accepts the transaction of a call. -/
def SendOutcome.Accepted (w : Wallet) (outcome : SendOutcome) : Prop :=
  ∃ submission ∈ outcome.submitted, NodeAccepts libs env.node w.endpoint submission.txBytes

/-- The call reports a failure, and no address which was unspent is marked as spent, neither in
the table of unspent outputs nor in the bitmask. -/
def LeavesNoTrace (w : Wallet) (outcome : SendOutcome) : Prop :=
  outcome.ret ≠ 0 ∧
    (∀ addr, unspentOutputsGetSpent w.unspent addr = false →
      unspentOutputsGetSpent outcome.wallet.unspent addr = false) ∧
    ∀ index, w.addrManager.spentAddr.marked index = false →
      outcome.wallet.addrManager.spentAddr.marked index = false

/-! ## Before anything is sent -/

/-- The entries which a payment takes: the shortest nonempty prefix of the eligible ones which covers the
amount as a word counts it. -/
def Takes (t : UnspentOutputs) (dest : SendFundsOp) (p : List UnspentOutputEntry) : Prop :=
  IsShortestPrefix (fun p => p ≠ [] ∧ CoversAsWord dest.amount dest.color p) t.eligible p

/-- The outputs for some entries can be built: no remainder address has to be searched for, or the search
starts behind the largest index, or some index derives an address which is not among the entries. -/
def BuildEnds (am : WalletAm) (dest : SendFundsOp) (p : List UnspentOutputEntry) : Prop :=
  dest.amount < (p.map (UnspentOutputEntry.contribution dest.color)).sum →
    emptyByteArray dest.remainder = true → am.firstUnspentIdx ≤ am.lastAddrIndex →
      ∃ i, addressGet libs.sodium am.seed i ∉ p.map UnspentOutputEntry.addr

/-- The wallet refuses a request before anything is sent: there is no amount or no receiver, or the refresh
returns and the refreshed table cannot cover the amount, or its entries can be paid with and the outputs be
built, but the signing does not get its byte order or all of its memory. -/
def RefusedBeforeSending (w : Wallet) (dest : SendFundsOp) : Prop :=
  dest.amount = 0 ∨ emptyByteArray dest.receiver = true ∨
    ∃ synced refreshed, walletRefresh libs env w false = some (synced, refreshed) ∧
      ((∀ p, ¬ Takes refreshed.unspent dest p) ∨
        ∃ p, Takes refreshed.unspent dest p ∧ BuildEnds libs refreshed.addrManager dest p ∧
          ¬ SigningSucceeds env p.length)

/-- The tests which `wallet_send_funds` makes before it builds a transaction for a refreshed wallet. -/
def PassesBalanceCheck (w : Wallet) (dest : SendFundsOp) : Prop :=
  (consumedOutputs w dest).isEmpty = false ∧
    dest.amount ≤ unspentOutputsBalanceWithColor (consumedOutputs w dest) dest.color

/-- The tests are passed exactly when the selection is what the payment takes. -/
theorem passesBalanceCheck_iff {w : Wallet} {dest : SendFundsOp} :
    PassesBalanceCheck w dest ↔
      Takes w.unspent dest (consumedOutputs w dest).entries := by
  rw [PassesBalanceCheck, consumedOutputs, le_balance_requiredOutputs_iff, InsertionTable.isEmpty,
    List.isEmpty_eq_false_iff]
  constructor
  · intro hpasses
    rcases requiredOutputs_cases w.unspent dest.amount dest.color with hshortest | ⟨hall, hnone⟩
    · exact hshortest
    · rw [hall] at hpasses
      exact absurd hpasses.2 (hnone _ (List.prefix_refl _) hpasses.1)
  · exact fun hshortest => hshortest.isEnough

/-- What the payment takes is the selection, where the tests are passed. -/
theorem takes_iff {w : Wallet} {dest : SendFundsOp} {p : List UnspentOutputEntry} :
    Takes w.unspent dest p ↔ PassesBalanceCheck w dest ∧ p = (consumedOutputs w dest).entries := by
  constructor
  · intro htakes
    have hselected : (consumedOutputs w dest).entries = p := by
      rcases requiredOutputs_cases w.unspent dest.amount dest.color with hfirst | ⟨-, hnone⟩
      · exact hfirst.eq htakes
      · exact absurd htakes.isEnough.2 (hnone p htakes.isPrefix htakes.isEnough.1)
    rw [passesBalanceCheck_iff, hselected]
    exact ⟨htakes, rfl⟩
  · rintro ⟨hpasses, rfl⟩
    exact passesBalanceCheck_iff.mp hpasses

/-- A payment takes nothing exactly when the tests fail. -/
theorem takes_none_iff {w : Wallet} {dest : SendFundsOp} :
    (∀ p, ¬ Takes w.unspent dest p) ↔ ¬ PassesBalanceCheck w dest := by
  simp only [takes_iff, not_and]
  exact ⟨fun hnone hpasses => hnone _ hpasses rfl, fun hfails _ hpasses => absurd hpasses hfails⟩

/-- A call with an amount and a receiver goes on to build a transaction when the refreshed wallet passes
the tests, and it is refused otherwise. -/
theorem walletSendFunds_of_balanceCheck {env : Env} {w refreshed : Wallet} {dest : SendFundsOp} {synced : Bool}
    (hrequest : ¬ (dest.amount = 0 ∨ emptyByteArray dest.receiver = true))
    (hrefresh : walletRefresh libs env w false = some (synced, refreshed)) :
    (PassesBalanceCheck refreshed dest → walletSendFunds libs env w dest =
        spendConsumed libs env refreshed dest (consumedOutputs refreshed dest)) ∧
      (¬ PassesBalanceCheck refreshed dest →
        walletSendFunds libs env w dest = some ⟨-1, refreshed, dest, []⟩) := by
  rw [walletSendFunds, if_neg hrequest, hrefresh]
  dsimp only
  constructor
  · intro hpasses
    rw [hpasses.1, if_neg (by decide), if_neg (UInt64.not_lt.mpr hpasses.2)]
  · intro hfails
    cases hconsumed : (consumedOutputs refreshed dest).isEmpty with
    | true => rw [if_pos rfl]
    | false =>
      rw [if_neg (by decide), if_pos]
      exact UInt64.not_le.mp fun hle => hfails ⟨hconsumed, hle⟩

/-- A transaction can be built for the selection exactly when the outputs can. -/
theorem isSome_buildTransaction_iff {w : Wallet} {dest : SendFundsOp} :
    (buildTransaction libs env w dest (consumedOutputs w dest)).isSome ↔
      BuildEnds libs w.addrManager dest (consumedOutputs w dest).entries := by
  rw [buildTransaction, Option.isSome_map, isSome_walletBuildOutputs_iff, unspentOutputsBalanceWithColor_eq_sum]
  simp only [consumedOutputs, eligible_requiredOutputs]
  exact Iff.rfl

/-- The end of a call which returns has built a transaction. -/
theorem isSome_buildTransaction_of_spendConsumed {w : Wallet} {dest : SendFundsOp} {consumed : UnspentOutputs}
    {outcome : SendOutcome} (h : spendConsumed libs env w dest consumed = some outcome) :
    (buildTransaction libs env w dest consumed).isSome := by
  unfold spendConsumed at h
  split at h
  · simp at h
  · next hbuilt => rw [hbuilt, Option.isSome_some]

/-- A built transaction which does not validate makes the call return a failure. -/
theorem spendConsumed_of_invalid {w : Wallet} {dest dest' : SendFundsOp} {consumed : UnspentOutputs}
    {tx : Transaction} {am : WalletAm} (hbuilt : buildTransaction libs env w dest consumed = some (tx, am, dest'))
    (hvalid : txSignautresValid libs.sodium env.validHost tx = false) :
    spendConsumed libs env w dest consumed = some ⟨-1, { w with addrManager := am }, dest', []⟩ := by
  rw [spendConsumed, hbuilt]
  dsimp only
  rw [if_pos hvalid]

variable {libs env}

/-- The verdict over a built transaction. -/
theorem BuiltFor.invalid_iff {w : Wallet} {dest : SendFundsOp} {tx : Transaction} {am : WalletAm}
    (h : BuiltFor libs env w dest (consumedOutputs w dest) tx am) (hverify : libs.sodium.VerifiesOwnSignatures)
    (hpasses : PassesBalanceCheck w dest) :
    txSignautresValid libs.sodium env.validHost tx = false ↔
      ¬ SigningSucceeds env (consumedOutputs w dest).entries.length := by
  rw [← h.valid_iff libs env hverify (fun elm helm => (mem_of_selected helm).2.2) hpasses.1, Bool.not_eq_true]

/-- A request which the wallet refuses comes back with a failure. -/
theorem returns_failure_of_refused (hverify : libs.sodium.VerifiesOwnSignatures) {w : Wallet} {dest : SendFundsOp}
    (hrefused : RefusedBeforeSending libs env w dest) :
    ∃ outcome, walletSendFunds libs env w dest = some outcome ∧ outcome.ret ≠ 0 := by
  have hfailed : (-1 : Int) ≠ 0 := by decide
  by_cases hrequest : dest.amount = 0 ∨ emptyByteArray dest.receiver = true
  · exact ⟨_, if_pos hrequest, hfailed⟩
  · rcases hrefused with hamount | hreceiver | ⟨synced, refreshed, hrefresh, hfails⟩
    · exact absurd (Or.inl hamount) hrequest
    · exact absurd (Or.inr hreceiver) hrequest
    · have hcheck := walletSendFunds_of_balanceCheck libs hrequest hrefresh
      rcases hfails with hpoor | ⟨p, htakes, hends, hunsigned⟩
      · exact ⟨_, hcheck.2 (takes_none_iff.mp hpoor), hfailed⟩
      · obtain ⟨hpasses, rfl⟩ := takes_iff.mp htakes
        obtain ⟨⟨tx, am, dest'⟩, htransaction⟩ := Option.isSome_iff_exists.mp
          ((isSome_buildTransaction_iff libs env).mpr hends)
        have hinvalid := ((builtFor_buildTransaction libs env htransaction).invalid_iff hverify hpasses).mpr hunsigned
        exact ⟨_, (hcheck.1 hpasses).trans (spendConsumed_of_invalid libs env htransaction hinvalid), hfailed⟩

/-- A call which reports success was not refused. -/
theorem not_refused_of_ret_eq_zero {w : Wallet} {dest : SendFundsOp} {outcome : SendOutcome}
    (h : SendEnd libs env w dest outcome) (hret : outcome.ret = 0) :
    ¬ RefusedBeforeSending libs env w dest := by
  have hfailed : (-1 : Int) ≠ 0 := by decide
  cases h with
  | refused => exact absurd hret hfailed
  | insufficient => exact absurd hret hfailed
  | invalid => exact absurd hret hfailed
  | submitted hrequest hrefresh hbalance hconsumed hbuilt hvalid =>
    have hsigned := hbuilt.signingSucceeds_of_valid libs env (fun elm helm => (mem_of_selected helm).2.2) hvalid
    rintro (hamount | hreceiver | ⟨synced, other, hother, hfails⟩)
    · exact absurd (Or.inl hamount) hrequest
    · exact absurd (Or.inr hreceiver) hrequest
    · obtain ⟨-, rfl⟩ := Prod.mk.inj (Option.some.inj (hother.symm.trans hrefresh))
      rcases hfails with hpoor | ⟨p, htakes, -, hunsigned⟩
      · exact absurd ⟨hconsumed, hbalance⟩ (takes_none_iff.mp hpoor)
      · obtain ⟨-, rfl⟩ := takes_iff.mp htakes
        exact hunsigned hsigned

/-- A call which returns reports a failure exactly when the wallet refuses the request itself. -/
theorem ret_ne_zero_iff_refused (hverify : libs.sodium.VerifiesOwnSignatures) {w : Wallet}
    {dest : SendFundsOp} {outcome : SendOutcome} (h : walletSendFunds libs env w dest = some outcome) :
    outcome.ret ≠ 0 ↔ RefusedBeforeSending libs env w dest := by
  constructor
  · intro hret
    cases sendEnd_walletSendFunds libs env h with
    | refused hrequest =>
      rcases hrequest with hamount | hreceiver
      · exact Or.inl hamount
      · exact Or.inr (Or.inl hreceiver)
    | insufficient _ hrefresh hbalance =>
      refine Or.inr (Or.inr ⟨_, _, hrefresh, Or.inl (takes_none_iff.mpr fun hpasses => ?_)⟩)
      exact absurd hpasses.2 (UInt64.not_le.mpr hbalance)
    | invalid hrequest hrefresh hbalance hconsumed hbuilt hvalid =>
      have hpasses : PassesBalanceCheck _ dest := ⟨hconsumed, hbalance⟩
      rw [(walletSendFunds_of_balanceCheck libs hrequest hrefresh).1 hpasses] at h
      have hends := (isSome_buildTransaction_iff libs env).mp (isSome_buildTransaction_of_spendConsumed libs env h)
      exact Or.inr (Or.inr ⟨_, _, hrefresh, Or.inr
        ⟨_, takes_iff.mpr ⟨hpasses, rfl⟩, hends, (hbuilt.invalid_iff hverify hpasses).mp hvalid⟩⟩)
    | submitted => exact absurd rfl hret
  · intro hrefused hret
    exact not_refused_of_ret_eq_zero (sendEnd_walletSendFunds libs env h) hret hrefused

/-! ## After a failure -/

/-- A call which refuses leaves no trace. -/
theorem leavesNoTrace_of_refused {w : Wallet} {dest : SendFundsOp} {outcome : SendOutcome}
    (h : SendEnd libs env w dest outcome) (hret : outcome.ret ≠ 0) : LeavesNoTrace w outcome := by
  refine ⟨hret, ?_, ?_⟩
  · intro addr haddr
    cases h with
    | refused => exact haddr
    | insufficient _ hrefresh _ =>
      rw [unspentOutputsGetSpent_walletRefresh libs env hrefresh, haddr]
    | invalid _ hrefresh _ _ _ _ =>
      rw [unspentOutputsGetSpent_walletRefresh libs env hrefresh, haddr]
    | submitted => exact absurd rfl hret
  · intro index hindex
    cases h with
    | refused => exact hindex
    | insufficient _ hrefresh _ => rwa [walletRefresh_eta libs env hrefresh]
    | invalid _ hrefresh _ _ hbuilt _ =>
      rw [Bool.eq_false_iff]
      intro hmarked
      have hbefore := hbuilt.marked index hmarked
      rw [walletRefresh_eta libs env hrefresh] at hbefore
      rw [hindex] at hbefore
      exact Bool.noConfusion hbefore
    | submitted => exact absurd rfl hret

variable (libs env)

/-- The transaction of a request is accepted: the call returns, and the node accepted what it submitted. -/
def SendAccepted (w : Wallet) (dest : SendFundsOp) : Prop :=
  ∃ outcome, walletSendFunds libs env w dest = some outcome ∧ outcome.Accepted libs env w

/-- A send which the node does not accept returns and leaves no trace, exactly when the node does accept it or
the wallet refuses the request before anything is sent. -/
theorem walletSendFunds_no_trace_iff (hverify : libs.sodium.VerifiesOwnSignatures) (w : Wallet)
    (dest : SendFundsOp) :
    (¬ SendAccepted libs env w dest →
        ∃ outcome, walletSendFunds libs env w dest = some outcome ∧ LeavesNoTrace w outcome) ↔
      (SendAccepted libs env w dest ∨ RefusedBeforeSending libs env w dest) := by
  constructor
  · intro hclaim
    by_cases haccepted : SendAccepted libs env w dest
    · exact Or.inl haccepted
    · obtain ⟨outcome, hsend, htrace⟩ := hclaim haccepted
      exact Or.inr ((ret_ne_zero_iff_refused hverify hsend).mp htrace.1)
  · intro hcondition hrejected
    rcases hcondition with haccepted | hrefused
    · exact absurd haccepted hrejected
    · obtain ⟨outcome, hsend, hret⟩ := returns_failure_of_refused hverify hrefused
      exact ⟨outcome, hsend, leavesNoTrace_of_refused (sendEnd_walletSendFunds libs env hsend) hret⟩

/-- A node which cannot be reached, and otherwise ordinary surroundings. -/
def unreachable : Env where
  node := fun _ => none
  past := ⟨[], [], []⟩
  heap := fun _ => 0
  strayIsNull := true
  signHost := sampleHost
  signGranted := fun _ => true
  validHost := fun _ => sampleHost
  base64Host := sampleHost

/-- A node which cannot be reached accepts nothing. -/
theorem not_sendAccepted_of_node {libs : Libraries} {env : Env} {w : Wallet} {dest : SendFundsOp}
    (hnode : env.node = unreachable.node) : ¬ SendAccepted libs env w dest := by
  intro ⟨_, _, _, _, _, _, _, _, _, hreply, _⟩
  simp [hnode, unreachable] at hreply

/-- What a payment of five plain tokens through the unreachable node leaves behind, for a wallet
with the given outputs. -/
def payFive (ids : OutputIds) : Option SendOutcome :=
  walletSendFunds (sampleLibraries []) unreachable (smallWallet ids) (plainRequest 5)

/-- Five plain tokens can be paid, and the call returns. -/
theorem payFive_fivePlain_isSome : (payFive fivePlain).isSome := by decide +kernel

/-- The unreachable node leaves a wallet which knows the address of index 0 alone as it is. -/
theorem walletRefresh_unreachable_eq {w : Wallet} (ham : w.addrManager = amNew (Bytes.zero 32) 0 none) :
    walletRefresh (sampleLibraries []) unreachable w false = some (true, w) := by
  have haddrs : amUnspentAddresses transparentSodium unreachable.heap (amNew (Bytes.zero 32) 0 none) =
      some [⟨0, addressGet transparentSodium (Bytes.zero 32) 0⟩] := by decide
  have hasked : refreshAddresses (sampleLibraries []) unreachable w false =
      some [⟨0, addressGet transparentSodium (Bytes.zero 32) 0⟩] := by
    rw [refreshAddresses, ham]
    exact haddrs
  have hreply : ∀ addrs, (refreshReply (sampleLibraries []) unreachable w addrs).1 = -1 := by
    intro addrs
    unfold refreshReply getUnspentOutputs unreachable
    split <;> rfl
  unfold walletRefresh
  rw [hasked]
  dsimp only
  rw [hreply, if_neg (by decide)]

/-- So it leaves the small wallet. -/
theorem walletRefresh_unreachable (ids : OutputIds) :
    walletRefresh (sampleLibraries []) unreachable (smallWallet ids) false =
      some (true, smallWallet ids) :=
  walletRefresh_unreachable_eq rfl

/-- The same surroundings, but the signature entries get no memory. -/
def unreachableUnsigned : Env := { unreachable with signGranted := fun _ => false }

/-- A payment whose signature entry gets no memory returns and leaves no trace. -/
theorem walletSendFunds_no_trace_iff_unsigned :
    ∃ outcome, walletSendFunds (sampleLibraries []) unreachableUnsigned (smallWallet fivePlain)
        (plainRequest 5) = some outcome ∧ LeavesNoTrace (smallWallet fivePlain) outcome := by
  have hrefresh : walletRefresh (sampleLibraries []) unreachableUnsigned (smallWallet fivePlain) false =
      some (true, smallWallet fivePlain) := walletRefresh_unreachable fivePlain
  have hpasses : PassesBalanceCheck (smallWallet fivePlain) (plainRequest 5) := by
    unfold PassesBalanceCheck
    decide
  refine (walletSendFunds_no_trace_iff (sampleLibraries []) unreachableUnsigned
    transparentSodium_verifiesOwnSignatures _ _).mpr ?_ (not_sendAccepted_of_node rfl)
  refine Or.inr (Or.inr (Or.inr ⟨_, _, hrefresh, Or.inr ⟨_, takes_iff.mpr ⟨hpasses, rfl⟩, ?_, ?_⟩⟩))
  · exact fun hless => absurd hless (by decide)
  · intro hsucceeds
    exact Bool.noConfusion (hsucceeds.2.2 0 (by decide))

/-- A send through a node which cannot be reached is not accepted and still reports success. -/
theorem walletSendFunds_unreachable_leaves_trace :
    ¬ ∀ (libs : Libraries) (env : Env) (w : Wallet) (dest : SendFundsOp),
      libs.sodium.VerifiesOwnSignatures → ¬ SendAccepted libs env w dest →
        ∃ outcome, walletSendFunds libs env w dest = some outcome ∧ LeavesNoTrace w outcome := by
  intro h
  obtain ⟨outcome, hsend, htrace⟩ := h (sampleLibraries []) unreachable (smallWallet fivePlain)
    (plainRequest 5) transparentSodium_verifiesOwnSignatures (not_sendAccepted_of_node rfl)
  have hret : (payFive fivePlain).map SendOutcome.ret = some 0 := by decide +kernel
  rw [show payFive fivePlain = some outcome from hsend] at hret
  exact htrace.1 (Option.some.inj hret)

end Goshimmer
