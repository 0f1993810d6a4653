import Goshimmer.Core.Selection
import Goshimmer.Wallet.RemainderChoice
import Goshimmer.Wallet.Worth

/-!
# Payments out of a ledger

A wallet next to the ledger of its node: what the wallet submits enters the ledger, and what the node answers
is what the ledger has. A payment to somebody else costs the wallet the amount of the requested colour, when
its change goes to a live address, and of every other colour what is confirmed at the addresses which it
consumes. Nothing else a wallet does costs it anything.
-/

namespace Goshimmer

variable (libs : Libraries)

/-! ## What is submitted -/

/-- What a call which submits a transaction has built it from. -/
structure Submits (env : Env) (w : Wallet) (dest : SendFundsOp) (outcome : SendOutcome) (refreshed : Wallet)
    (am : WalletAm) (tx : Transaction) : Prop where
  sent : ¬ RefusedBeforeSending libs env w dest
  refresh : ∃ synced, walletRefresh libs env w false = some (synced, refreshed)
  covers : dest.amount ≤ unspentOutputsBalanceWithColor (consumedOutputs refreshed dest) dest.color
  built : ∃ dest', walletBuildOutputs libs refreshed.addrManager dest (consumedOutputs refreshed dest) =
    some (tx.outputs, am, dest')
  inputs_eq : tx.inputs = walletBuildInputs (consumedOutputs refreshed dest)
  wallet_eq : outcome.wallet =
    markConsumed env.heap { refreshed with addrManager := am } (consumedOutputs refreshed dest)

/-- A call submits nothing, or one transaction. -/
theorem submits_walletSendFunds {env : Env} {w : Wallet} {dest : SendFundsOp} {outcome : SendOutcome}
    (h : walletSendFunds libs env w dest = some outcome) :
    outcome.submitted = [] ∨ ∃ refreshed am submission, outcome.submitted = [submission] ∧
      Submits libs env w dest outcome refreshed am submission.tx := by
  have hsent := not_refused_of_ret_eq_zero (sendEnd_walletSendFunds libs env h)
  unfold walletSendFunds at h
  split at h
  · rw [← Option.some.inj h]
    exact Or.inl rfl
  · split at h
    · simp at h
    · next synced refreshed hrefresh =>
      dsimp only at h
      split at h
      · rw [← Option.some.inj h]
        exact Or.inl rfl
      · split at h
        · rw [← Option.some.inj h]
          exact Or.inl rfl
        · next hbalance =>
          unfold spendConsumed at h
          split at h
          · simp at h
          · next tx am dest' htransaction =>
            obtain ⟨⟨outputs, am', dest''⟩, hbuilt, hsigned⟩ := Option.map_eq_some_iff.mp htransaction
            obtain ⟨htx, hrest⟩ := Prod.mk.inj hsigned
            obtain ⟨rfl, -⟩ := Prod.mk.inj hrest
            dsimp only at h
            split at h
            · rw [← Option.some.inj h]
              exact Or.inl rfl
            · split at h
              · simp at h
              · rw [← Option.some.inj h] at hsent ⊢
                refine Or.inr ⟨refreshed, am', _, rfl, hsent rfl, ⟨synced, hrefresh⟩,
                  UInt64.not_lt.mp hbalance, ⟨dest'', ?_⟩, ?_, rfl⟩
                · rw [hbuilt, ← htx, walletSignTx_eta]
                · rw [← htx, walletSignTx_eta]

/-! ## The change -/

variable {libs}

/-- A search which starts within its bound chooses the address of an index within the bound afterwards. -/
theorem Searched.chosen {unspent : UnspentOutputs} {i : UInt64} {am : WalletAm} {remainder : Address}
    {addrIndex : UInt64} {result : WalletAm × Address × UInt64}
    (h : Searched libs unspent i am remainder addrIndex result) (hle : i ≤ am.lastAddrIndex) :
    ∃ j ≤ result.1.lastAddrIndex, result.2.1 = addressGet libs.sodium am.seed j ∧
      unspentOutputsFind unspent (addressGet libs.sodium am.seed j) = none := by
  induction h with
  | ended hend => exact absurd hle hend
  | @found i _ _ _ hbelow hfree => exact ⟨i, hbelow, rfl, hfree⟩
  | @raised am _ _ _ _ _ ih =>
    have hseed : (amGetNewAddress libs.sodium am).1.seed = am.seed := seed_amGetAddress _ _ _
    rw [← hseed]
    exact ih (succ_le_lastAddrIndex_amGetNewAddress libs am)
  | passed hbelow hlast _ _ ih => exact ih (add_one_le_of_lt (UInt64.lt_of_le_of_ne hbelow hlast))

/-- Where the live addresses come first the chosen one is live. -/
theorem LiveComesFirst.live {w : Wallet} {consumed : UnspentOutputs} (h : LiveComesFirst libs w consumed)
    (horder : w.addrManager.InOrder) {remainder : Address} {addrIndex : UInt64}
    {result : WalletAm × Address × UInt64}
    (hsearched : Searched libs consumed w.addrManager.firstUnspentIdx w.addrManager remainder addrIndex result) :
    ¬ AddressRetired libs w result.2.1 := by
  obtain ⟨chosen, hbefore, hfree, heq⟩ := hsearched.stops libs horder
  intro hretired
  rw [heq] at hretired
  obtain ⟨j, hj, hchoosable, -⟩ := h chosen hfree hretired
  have hsome := hbefore j hj
  rw [show unspentOutputsFind consumed _ = none from hchoosable] at hsome
  exact absurd hsome (by simp)

variable (libs) in
/-- The change of a payment to somebody else: there is none, or it goes to an index which is not selected. -/
inductive Change (refreshed : Wallet) (am : WalletAm) (dest : SendFundsOp) (outputs : List TxOutput) : Prop
  /-- The amount is all there is. -/
  | covered (hequal : unspentOutputsBalanceWithColor (consumedOutputs refreshed dest) dest.color = dest.amount)
      (houtputs : outputs = [receiverOutput dest])
  /-- The rest goes to a live address of the wallet. -/
  | rest (j addrIndex : UInt64) (hbelow : j ≤ am.lastAddrIndex)
      (hfree : unspentOutputsFind (consumedOutputs refreshed dest)
        (addressGet libs.sodium refreshed.addrManager.seed j) = none)
      (hlive : ¬ AddressRetired libs refreshed (addressGet libs.sodium refreshed.addrManager.seed j))
      (houtputs : outputs =
        [singleOutput addrIndex (addressGet libs.sodium refreshed.addrManager.seed j)
          (unspentOutputsBalanceWithColor (consumedOutputs refreshed dest) dest.color - dest.amount).toInt64
          dest.color, receiverOutput dest])

/-- Which of the two a request with an empty remainder field gets. -/
theorem change_walletBuildOutputs {refreshed : Wallet} {dest dest' : SendFundsOp} {outputs : List TxOutput}
    {am : WalletAm} (horder : refreshed.addrManager.InOrder) (hremainder : emptyByteArray dest.remainder = true)
    (hforeign : ∀ i, dest.receiver ≠ addressGet libs.sodium refreshed.addrManager.seed i)
    (hlive : LiveComesFirst libs refreshed (consumedOutputs refreshed dest))
    (hcovers : dest.amount ≤ unspentOutputsBalanceWithColor (consumedOutputs refreshed dest) dest.color)
    (h : walletBuildOutputs libs refreshed.addrManager dest (consumedOutputs refreshed dest) =
      some (outputs, am, dest')) : Change libs refreshed am dest outputs := by
  unfold walletBuildOutputs at h
  dsimp only at h
  split at h
  · unfold buildRemainder at h
    cases hsearch : remainderSearch libs (consumedOutputs refreshed dest) searchFuel
        refreshed.addrManager.firstUnspentIdx refreshed.addrManager dest.remainder 0 with
    | none => simp [hsearch] at h
    | some found =>
      obtain ⟨am₁, remainder, addrIndex⟩ := found
      have hsearched := searched_remainderSearch libs _ _ hsearch
      have hkept := hlive.live horder hsearched
      obtain ⟨j, hj, heq, hfree⟩ := hsearched.chosen horder
      dsimp only at hj heq hkept
      subst heq
      simp only [hsearch, Option.bind_eq_bind, Option.bind_some, if_neg (hforeign j)] at h
      obtain ⟨rfl, rfl, -⟩ := by simpa using h
      exact .rest j addrIndex hj hfree hkept rfl
  · next hnot =>
    obtain ⟨rfl, -, -⟩ := by simpa using h
    refine .covered ?_ rfl
    by_contra hother
    exact hnot ⟨UInt64.lt_of_le_of_ne hcovers (Ne.symm hother), hremainder⟩

/-! ## What the selection takes along -/

/-- A sum over the selected addresses is a sum over the selected indices. -/
theorem SelectionBound.sum_eq {refreshed : Wallet} {dest : SendFundsOp} (h : SelectionBound libs refreshed dest)
    {seed : Seed} (hseed : refreshed.addrManager.seed = seed) (value : Address → UInt64) :
    ((consumedOutputs refreshed dest).entries.map fun elm => value elm.addr).sum =
      ∑ i ∈ ((consumedOutputs refreshed dest).entries.map UnspentOutputEntry.addrIndex).toFinset,
        value (addressGet libs.sodium seed i) := by
  have haddrs : (consumedOutputs refreshed dest).entries.map UnspentOutputEntry.addr =
      ((consumedOutputs refreshed dest).entries.map UnspentOutputEntry.addrIndex).map
        (addressGet libs.sodium seed) := by
    rw [List.map_map]
    refine List.map_congr_left fun elm helm => ?_
    rw [h elm helm, hseed]
    rfl
  have hnodup : ((consumedOutputs refreshed dest).entries.map UnspentOutputEntry.addrIndex).Nodup := by
    have hkeys := (consumedOutputs refreshed dest).nodup
    rw [haddrs] at hkeys
    exact hkeys.of_map
  rw [List.sum_toFinset _ hnodup, ← Function.comp_def value (addressGet libs.sodium seed), ← List.map_map, ← haddrs,
    List.map_map]
  rfl

/-- The balance of a selection which shows a ledger is what the ledger has at its addresses. -/
theorem balance_consumedOutputs {refreshed : Wallet} {dest : SendFundsOp} {ledger : Ledger}
    (hdistinct : ledger.Distinct)
    (hshown : ∀ elm ∈ (consumedOutputs refreshed dest).entries, elm.ids = outputsTable (ledger elm.addr))
    (color : Color) :
    unspentOutputsBalanceWithColor (consumedOutputs refreshed dest) color =
      ((consumedOutputs refreshed dest).entries.map fun elm => ledger.confirmedOf color elm.addr).sum := by
  rw [unspentOutputsBalanceWithColor_eq_sum, consumedOutputs, eligible_requiredOutputs, ← consumedOutputs]
  congr 1
  refine List.map_congr_left fun elm helm => ?_
  rw [UnspentOutputEntry.contribution, hshown elm helm, hdistinct.outputIdsBalanceWithColor_eq]

/-! ## The wallet next to the ledger -/

/-- A payment, with the ledger which it enters. -/
structure Payment where
  dest : SendFundsOp
  ledger : Ledger
  tx : Transaction

/-- What a payment costs the wallet of a colour: the amount of the requested one, and everything confirmed of
another one at the addresses which it consumes. -/
def Payment.cost (color : Color) (payment : Payment) : UInt64 :=
  if color = payment.dest.color then payment.dest.amount
  else payment.ledger.confirmedUnder color payment.tx.inputs

/-- How a ledger takes in a transaction: the id it gets, and the state of its outputs. -/
structure Acceptance where
  id : TxId
  st : InclusionState

/-- The payments of an operation which submits transactions to a ledger. -/
def WalletOp.payments (ledger : Ledger) (op : WalletOp) (out : List Submission) : List Payment :=
  match op with
  | .sendFunds dest => out.map fun submission => ⟨dest, ledger, submission.tx⟩
  | _ => []

variable (libs) in
/-- An operation of the wallet, whose submissions enter the ledger. -/
def paymentStep (s : Wallet × Ledger) (a : (Env × WalletOp) × Acceptance) :
    Option ((Wallet × Ledger) × List Payment) :=
  (walletStep libs s.1 a.1).map fun result =>
    ((result.1, result.2.foldl (fun ledger submission => ledger.after submission.tx a.2.id a.2.st) s.2),
      a.1.2.payments s.2 result.2)

variable (libs) in
/-- What a payment has to meet: the node answers the refresh with the ledger, some index is left to ask
about, the transaction gets a new id and its outputs are confirmed; the request pays somebody else and leaves
the remainder to the wallet, where the live addresses come first. -/
structure MeetsPayment (seed : Seed) (w : Wallet) (ledger : Ledger) (env : Env) (dest : SendFundsOp)
    (acceptance : Acceptance) : Prop where
  answers : AnswersLedger libs ledger env w
  left : ∃ i, w.addrManager.Unspent i
  counts : w.addrManager.lastAddrIndex.toNat + 1 < 2 ^ 64
  fresh : ∀ addr, ∀ o ∈ ledger addr, o.outputId.txId ≠ acceptance.id
  confirmed : acceptance.st.confirmed = true
  foreign : ∀ i, dest.receiver ≠ addressGet libs.sodium seed i
  remainder : emptyByteArray dest.remainder = true
  live : ∀ synced refreshed, walletRefresh libs env w false = some (synced, refreshed) →
    LiveComesFirst libs refreshed (consumedOutputs refreshed dest)

variable (libs) in
/-- What an operation has to meet. -/
def MeetsLedger (seed : Seed) (s : Wallet × Ledger) (a : (Env × WalletOp) × Acceptance) : Prop :=
  StepBound libs s.1 a.1 ∧
    ∀ dest, a.1.2 = .sendFunds dest → MeetsPayment libs seed s.1 s.2 a.1.1 dest a.2

variable (libs) in
/-- The records of the wallet are in step, the ledger repeats nothing, and it has nothing yet at the indices
which are still to come, and nothing any more at those which were retired behind the first cursor. -/
structure Settled (seed : Seed) (s : Wallet × Ledger) : Prop where
  inStep : s.1.RecordsInStep libs seed
  front : s.1.addrManager.FrontKept
  placed : s.2.Placed
  distinct : s.2.Distinct
  untouched : ∀ i, s.1.addrManager.lastAddrIndex < i → s.2 (addressGet libs.sodium seed i) = []
  drained : ∀ i, s.1.addrManager.firstUnspentIdx ≤ i → s.1.addrManager.spentAddr.marked i = true →
    s.2 (addressGet libs.sodium seed i) = []

/-- A step never lowers the largest index. -/
theorem lastAddrIndex_walletStep {w w' : Wallet} {op : Env × WalletOp} {out : List Submission}
    (hstep : walletStep libs w op = some (w', out)) : w.addrManager.lastAddrIndex ≤ w'.addrManager.lastAddrIndex := by
  refine addrManager_invariant libs (fun am => w.addrManager.lastAddrIndex ≤ am.lastAddrIndex) ?_ ?_
    (UInt64.le_refl _) hstep
  · intro am index hle
    rw [lastAddrIndex_amGetAddress]
    split
    · next hless => exact UInt64.le_trans hle (UInt64.le_of_lt hless)
    · exact hle
  · intro heap am index hle
    rwa [lastAddrIndex_amMarkSpentAddress]

/-- Marking an index never lowers the first cursor. -/
theorem le_firstUnspentIdx_amMarkSpentAddress (heap : UInt64 → Byte) (am : WalletAm) (index : UInt64) :
    am.firstUnspentIdx ≤ (amMarkSpentAddress heap am index).firstUnspentIdx := by
  rw [amMarkSpentAddress_eq]
  dsimp only
  split
  · cases hfound : (indicesBelow am.firstUnspentIdx am.lastAddrIndex).find? fun i =>
        decide (bitmaskGet heap (bitmaskOp true am.spentAddr index .set).2 i = false) with
    | none => exact UInt64.le_refl _
    | some k => exact (mem_indicesBelow.mp (List.mem_of_find?_eq_some hfound)).1
  · exact UInt64.le_refl _

/-- A step never lowers the first cursor. -/
theorem firstUnspentIdx_walletStep {w w' : Wallet} {op : Env × WalletOp} {out : List Submission}
    (hstep : walletStep libs w op = some (w', out)) :
    w.addrManager.firstUnspentIdx ≤ w'.addrManager.firstUnspentIdx := by
  refine addrManager_invariant libs (fun am => w.addrManager.firstUnspentIdx ≤ am.firstUnspentIdx) ?_ ?_
    (UInt64.le_refl _) hstep
  · intro am index hle
    rwa [amGetAddress_eq]
  · intro heap am index hle
    exact UInt64.le_trans hle (le_firstUnspentIdx_amMarkSpentAddress heap am index)

/-- A wallet with the same flags in its table has the same marks. -/
theorem Settled.marked_eq_of_same {seed : Seed} {s : Wallet × Ledger} (h : Settled libs seed s) {w' : Wallet}
    (h' : w'.RecordsInStep libs seed)
    (hsame : ∀ addr, unspentOutputsGetSpent w'.unspent addr = unspentOutputsGetSpent s.1.unspent addr) (i : UInt64) :
    w'.addrManager.spentAddr.marked i = s.1.addrManager.spentAddr.marked i := by
  rw [← h'.agree i, ← h.inStep.agree i, hsame]

/-- While no address is retired the wallet is worth the same. -/
theorem Settled.worth_eq_of_same {seed : Seed} {s : Wallet × Ledger} (h : Settled libs seed s) {w' : Wallet}
    (h' : w'.RecordsInStep libs seed) (hlast : s.1.addrManager.lastAddrIndex ≤ w'.addrManager.lastAddrIndex)
    (hsame : ∀ addr, unspentOutputsGetSpent w'.unspent addr = unspentOutputsGetSpent s.1.unspent addr)
    (color : Color) : s.2.worth libs color s.1.addrManager = s.2.worth libs color w'.addrManager := by
  have hmarked := h.marked_eq_of_same h' hsame
  rw [s.2.worth_eq_sum libs color h.inStep.seed_eq, s.2.worth_eq_sum libs color h'.seed_eq]
  apply Finset.sum_subset
  · intro i hi
    rw [List.mem_toFinset, WalletAm.mem_unspentIndices] at hi ⊢
    exact ⟨UInt64.le_trans hi.1 hlast, (hmarked i).trans hi.2⟩
  · intro i hi hnot
    rw [List.mem_toFinset, WalletAm.mem_unspentIndices] at hi hnot
    have hnew : s.1.addrManager.lastAddrIndex < i := by
      rw [← UInt64.not_le]
      exact fun hold => hnot ⟨hold, (hmarked i).symm.trans hi.2⟩
    rw [Ledger.confirmedOf, h.untouched i hnew]
    rfl

/-! ## A payment -/

/-- Outputs to somebody else pay nothing to the wallet. -/
theorem paidTo_receiver {dest : SendFundsOp} {addr : Address} (hforeign : dest.receiver ≠ addr) (color : Color)
    (outputs : List TxOutput) : paidTo color (outputs ++ [receiverOutput dest]) addr = paidTo color outputs addr := by
  rw [paidTo, paidTo, List.filter_append, List.filter_singleton]
  have hother : decide ((receiverOutput dest).address = addr) = false := decide_eq_false hforeign
  rw [hother]
  simp

/-- What the change brings back to the indices which are left. -/
theorem Change.sum_paidTo {refreshed : Wallet} {am : WalletAm} {dest : SendFundsOp} {outputs : List TxOutput}
    (h : Change libs refreshed am dest outputs)
    (hdistinct : Function.Injective (addressGet libs.sodium refreshed.addrManager.seed))
    (hforeign : ∀ i, dest.receiver ≠ addressGet libs.sodium refreshed.addrManager.seed i) {after : Finset UInt64}
    (hafter : ∀ j ≤ am.lastAddrIndex,
      unspentOutputsFind (consumedOutputs refreshed dest) (addressGet libs.sodium refreshed.addrManager.seed j) = none →
        ¬ AddressRetired libs refreshed (addressGet libs.sodium refreshed.addrManager.seed j) → j ∈ after)
    (color : Color) :
    ∑ i ∈ after, paidTo color outputs (addressGet libs.sodium refreshed.addrManager.seed i) =
      if color = dest.color then
        unspentOutputsBalanceWithColor (consumedOutputs refreshed dest) dest.color - dest.amount
      else 0 := by
  cases h with
  | covered hequal houtputs =>
    have hnothing : ∀ i ∈ after,
        paidTo color outputs (addressGet libs.sodium refreshed.addrManager.seed i) = 0 := by
      intro i _
      rw [houtputs, ← List.nil_append [receiverOutput dest], paidTo_receiver (hforeign i)]
      rfl
    rw [Finset.sum_eq_zero hnothing, hequal, sub_self, ite_self]
  | rest j addrIndex hbelow hfree hlive houtputs =>
    have hone : ∀ i, paidTo color outputs (addressGet libs.sodium refreshed.addrManager.seed i) =
        if i = j then
          if color = dest.color then
            unspentOutputsBalanceWithColor (consumedOutputs refreshed dest) dest.color - dest.amount
          else 0
        else 0 := by
      intro i
      rw [houtputs, ← List.singleton_append, paidTo_receiver (hforeign i), paidTo, List.filter_singleton]
      by_cases hi : i = j
      · subst hi
        simp [singleOutput, Balance.worth]
      · have hother : addressGet libs.sodium refreshed.addrManager.seed j ≠
            addressGet libs.sodium refreshed.addrManager.seed i := fun heq => hi (hdistinct heq).symm
        simp [singleOutput, hi, hother]
    rw [Finset.sum_congr rfl fun i _ => hone i, Finset.sum_ite_eq', if_pos (hafter j hbelow hfree hlive)]

variable (libs) in
/-- A wallet afterwards, in which the indices of some entries are retired besides. The entries show the
ledger. -/
structure Retires (seed : Seed) (w : Wallet) (ledger : Ledger) (consumed : UnspentOutputs) (w' : Wallet) : Prop where
  bound : ∀ elm ∈ consumed.entries, elm.addr = addressGet libs.sodium seed elm.addrIndex
  shown : ∀ elm ∈ consumed.entries, elm.ids = outputsTable (ledger elm.addr)
  unspent : ∀ elm ∈ consumed.entries, elm.addrIndex ∈ w.addrManager.unspentIndices
  marked : ∀ i, w'.addrManager.spentAddr.marked i =
    (w.addrManager.spentAddr.marked i || decide (i ∈ consumed.entries.map UnspentOutputEntry.addrIndex))
  last_le : w.addrManager.lastAddrIndex ≤ w'.addrManager.lastAddrIndex

/-- The indices which such a wallet has left. -/
theorem Retires.mem_unspentIndices {seed : Seed} {w w' : Wallet} {ledger : Ledger} {consumed : UnspentOutputs}
    (h : Retires libs seed w ledger consumed w') {i : UInt64} :
    i ∈ w'.addrManager.unspentIndices ↔ i ≤ w'.addrManager.lastAddrIndex ∧
      w.addrManager.spentAddr.marked i = false ∧ i ∉ consumed.entries.map UnspentOutputEntry.addrIndex := by
  rw [WalletAm.mem_unspentIndices, h.marked, Bool.or_eq_false_iff, decide_eq_false_iff_not]

/-- Other indices keep their outputs. -/
theorem Retires.outputs_kept {seed : Seed} {w w' : Wallet} {ledger : Ledger} {consumed : UnspentOutputs}
    (h : Retires libs seed w ledger consumed w') (hplaced : ledger.Placed)
    (hinjective : Function.Injective (addressGet libs.sodium seed)) {i : UInt64}
    (hi : i ∉ consumed.entries.map UnspentOutputEntry.addrIndex) :
    ∀ o ∈ ledger (addressGet libs.sodium seed i), o.outputId ∉ walletBuildInputs consumed := by
  intro o ho hinput
  obtain ⟨elm, helm, id, -, heq⟩ := (mem_walletBuildInputs_iff consumed o.outputId).mp hinput
  have haddr : addressGet libs.sodium seed i = elm.addr := by
    rw [← hplaced _ o ho, heq, OutputId.address_txOutputId]
  rw [h.bound elm helm] at haddr
  exact hi (List.mem_map.mpr ⟨elm, helm, (hinjective haddr).symm⟩)

/-- What the wallet was worth is what it is worth in the ledger afterwards with what the retired indices took
along, up to what is paid to the indices which are left. -/
theorem Retires.worth_add_paidTo {seed : Seed} {s : Wallet × Ledger} {w' : Wallet} {consumed : UnspentOutputs}
    (h : Retires libs seed s.1 s.2 consumed w') (hsettled : Settled libs seed s)
    (hinjective : Function.Injective (addressGet libs.sodium seed)) (hseed : w'.addrManager.seed = seed)
    {tx : Transaction} (hinputs : tx.inputs = walletBuildInputs consumed) (id : TxId) {st : InclusionState}
    (hconfirmed : st.confirmed = true) (color : Color) :
    s.2.worth libs color s.1.addrManager +
        ∑ i ∈ w'.addrManager.unspentIndices.toFinset, paidTo color tx.outputs (addressGet libs.sodium seed i) =
      (s.2.after tx id st).worth libs color w'.addrManager +
        ∑ i ∈ (consumed.entries.map UnspentOutputEntry.addrIndex).toFinset,
          s.2.confirmedOf color (addressGet libs.sodium seed i) := by
  rw [s.2.worth_eq_sum libs color hsettled.inStep.seed_eq, (s.2.after tx id st).worth_eq_sum libs color hseed]
  apply sum_add_gain_eq_of_retired
  · intro i hi
    rw [List.mem_toFinset] at hi ⊢
    obtain ⟨elm, helm, rfl⟩ := List.mem_map.mp hi
    exact h.unspent elm helm
  · intro i hbefore hleft
    rw [List.mem_toFinset, WalletAm.mem_unspentIndices] at hbefore
    rw [List.mem_toFinset, h.mem_unspentIndices]
    exact ⟨UInt64.le_trans hbefore.1 h.last_le, hbefore.2, fun hi => hleft (List.mem_toFinset.mpr hi)⟩
  · intro i hi hretired
    rw [List.mem_toFinset] at hretired
    exact (h.mem_unspentIndices.mp (List.mem_toFinset.mp hi)).2.2 hretired
  · intro i hi hnot
    obtain ⟨-, hclear, -⟩ := h.mem_unspentIndices.mp (List.mem_toFinset.mp hi)
    have hnew : s.1.addrManager.lastAddrIndex < i := by
      rw [← UInt64.not_le]
      exact fun hold => hnot (List.mem_toFinset.mpr (WalletAm.mem_unspentIndices.mpr ⟨hold, hclear⟩))
    rw [Ledger.confirmedOf, hsettled.untouched i hnew]
    rfl
  · intro i hi
    obtain ⟨-, -, hleft⟩ := h.mem_unspentIndices.mp (List.mem_toFinset.mp hi)
    refine Ledger.confirmedOf_after ?_ id hconfirmed color
    rw [hinputs]
    exact h.outputs_kept hsettled.placed hinjective hleft

/-- The entries which a send selects show the ledger, when the node answers the refresh with it. -/
theorem shown_of_answers {seed : Seed} {ledger : Ledger} {env : Env} {w refreshed : Wallet}
    (h : w.RecordsInStep libs seed) (hfront : w.addrManager.FrontKept) (hbase58 : libs.base58.Lawful)
    (hanswers : AnswersLedger libs ledger env w) (hleft : ∃ i, w.addrManager.Unspent i)
    (hcounts : w.addrManager.lastAddrIndex.toNat + 1 < 2 ^ 64) {synced : Bool}
    (hrefresh : walletRefresh libs env w false = some (synced, refreshed)) {dest : SendFundsOp} :
    ∀ elm ∈ (consumedOutputs refreshed dest).entries, elm.ids = outputsTable (ledger elm.addr) := by
  obtain ⟨i, hi⟩ := hleft
  obtain ⟨indices, other, hother, -, -, hfrom⟩ := h.refreshedFrom hfront hbase58 hanswers hi hcounts
  obtain ⟨-, rfl⟩ := Prod.mk.inj (Option.some.inj (hother.symm.trans hrefresh))
  intro elm helm
  exact hfrom.ids_eq (mem_of_mem_consumedOutputs helm) (mem_of_selected helm).2.1

/-- A payment retires its selection. -/
theorem Settled.retires {seed : Seed} {s : Wallet × Ledger} (h : Settled libs seed s) (hbase58 : libs.base58.Lawful)
    (hinjective : Function.Injective (addressGet libs.sodium seed)) {env : Env} {dest : SendFundsOp}
    (hbound : StepBound libs s.1 (env, .sendFunds dest)) {acceptance : Acceptance}
    (hmeets : MeetsPayment libs seed s.1 s.2 env dest acceptance) {outcome : SendOutcome} {refreshed : Wallet}
    {am : WalletAm} {tx : Transaction} (hsubmits : Submits libs env s.1 dest outcome refreshed am tx)
    (hlast : s.1.addrManager.lastAddrIndex ≤ outcome.wallet.addrManager.lastAddrIndex) :
    Retires libs seed s.1 s.2 (consumedOutputs refreshed dest) outcome.wallet := by
  obtain ⟨hasked, hsends⟩ := hbound
  obtain ⟨synced, hrefresh⟩ := hsubmits.refresh
  obtain ⟨dest', hbuilt⟩ := hsubmits.built
  have ham := addrManager_walletRefresh libs env hrefresh
  have hrefreshed : refreshed.RecordsInStep libs seed := h.inStep.refresh hasked hrefresh
  have hselected : SelectionBound libs refreshed dest := hsends dest rfl hsubmits.sent _ _ hrefresh
  have hrebuilt : Wallet.RecordsInStep libs seed { refreshed with addrManager := am } :=
    hrefreshed.built hinjective (askedNew_walletBuildOutputs libs hbuilt)
  have hentry : ∀ elm ∈ (consumedOutputs refreshed dest).entries,
      elm.addr = addressGet libs.sodium seed elm.addrIndex := by
    intro elm helm
    rw [hselected elm helm, hrefreshed.seed_eq]
  refine ⟨hentry, ?_, ?_, ?_, hlast⟩
  · exact shown_of_answers h.inStep h.front hbase58 hmeets.answers hmeets.left hmeets.counts hrefresh
  · intro elm helm
    obtain ⟨hmem, hunspent, -⟩ := mem_of_selected helm
    obtain ⟨j, hj, haddr⟩ := hrefreshed.derived elm hmem
    obtain rfl := hinjective ((hentry elm helm).symm.trans haddr)
    have hflag := hrefreshed.agree elm.addrIndex
    rw [← haddr, unspentOutputsGetSpent, unspentOutputsFind, InsertionTable.find_key_of_mem hmem, ham] at hflag
    rw [WalletAm.mem_unspentIndices, ← ham]
    exact ⟨hj, (ham ▸ hflag).symm.trans hunspent⟩
  · intro i
    rw [hsubmits.wallet_eq, spentAddr_markConsumed, Bitmask.marked_setAll]
    congr 1
    rw [← hrebuilt.agree i, hrefreshed.agree i, ham]

/-- The outputs of a payment go to different addresses. -/
theorem Change.nodup_addresses {refreshed : Wallet} {am : WalletAm} {dest : SendFundsOp} {outputs : List TxOutput}
    (h : Change libs refreshed am dest outputs)
    (hforeign : ∀ i, dest.receiver ≠ addressGet libs.sodium refreshed.addrManager.seed i) :
    (outputs.map TxOutput.address).Nodup := by
  cases h with
  | covered _ houtputs =>
    rw [houtputs]
    exact List.nodup_singleton _
  | rest j addrIndex _ _ _ houtputs =>
    rw [houtputs, List.map_cons, List.map_singleton, List.nodup_cons]
    exact ⟨fun hsame => hforeign j (List.mem_singleton.mp hsame).symm, List.nodup_singleton _⟩

/-- Each of them has a single balance. -/
theorem Change.nodup_colors {refreshed : Wallet} {am : WalletAm} {dest : SendFundsOp} {outputs : List TxOutput}
    (h : Change libs refreshed am dest outputs) :
    ∀ out ∈ outputs, (out.balances.map Balance.color).Nodup := by
  have hsingle : ∀ (addrIndex : UInt64) (addr : Address) (value : Int64) (color : Color),
      ((singleOutput addrIndex addr value color).balances.map Balance.color).Nodup :=
    fun _ _ _ color => List.nodup_singleton color
  intro out hout
  cases h with
  | covered _ houtputs =>
    rw [houtputs, List.mem_singleton] at hout
    rw [hout]
    exact hsingle _ _ _ _
  | rest _ _ _ _ _ houtputs =>
    rw [houtputs, List.mem_pair] at hout
    rcases hout with rfl | rfl
    · exact hsingle _ _ _ _
    · exact hsingle _ _ _ _

/-- No output goes to an index which does not get the change. -/
theorem Change.address_ne {refreshed : Wallet} {am : WalletAm} {dest : SendFundsOp} {outputs : List TxOutput}
    (h : Change libs refreshed am dest outputs)
    (hinjective : Function.Injective (addressGet libs.sodium refreshed.addrManager.seed))
    (hforeign : ∀ i, dest.receiver ≠ addressGet libs.sodium refreshed.addrManager.seed i) {i : UInt64}
    (hi : i ≤ am.lastAddrIndex →
      unspentOutputsFind (consumedOutputs refreshed dest) (addressGet libs.sodium refreshed.addrManager.seed i) = none →
        AddressRetired libs refreshed (addressGet libs.sodium refreshed.addrManager.seed i)) :
    ∀ out ∈ outputs, out.address ≠ addressGet libs.sodium refreshed.addrManager.seed i := by
  intro out hout
  cases h with
  | covered _ houtputs =>
    rw [houtputs, List.mem_singleton] at hout
    rw [hout]
    exact hforeign i
  | rest j _ hbelow hfree hlive houtputs =>
    rw [houtputs, List.mem_pair] at hout
    rcases hout with rfl | rfl
    · intro hsame
      obtain rfl := hinjective hsame
      exact hlive (hi hbelow hfree)
    · exact hforeign i

/-- Where the change of a payment goes. -/
theorem Settled.change {seed : Seed} {s : Wallet × Ledger} (h : Settled libs seed s) {env : Env}
    {dest : SendFundsOp} (hbound : StepBound libs s.1 (env, .sendFunds dest)) {acceptance : Acceptance}
    (hmeets : MeetsPayment libs seed s.1 s.2 env dest acceptance) {outcome : SendOutcome} {refreshed : Wallet}
    {am : WalletAm} {tx : Transaction} (hsubmits : Submits libs env s.1 dest outcome refreshed am tx) :
    refreshed.addrManager = s.1.addrManager ∧ refreshed.addrManager.seed = seed ∧
      Change libs refreshed am dest tx.outputs := by
  obtain ⟨synced, hrefresh⟩ := hsubmits.refresh
  obtain ⟨dest', hbuilt⟩ := hsubmits.built
  have ham := addrManager_walletRefresh libs env hrefresh
  have hrefreshed : refreshed.RecordsInStep libs seed := h.inStep.refresh hbound.1 hrefresh
  obtain rfl := hrefreshed.seed_eq
  exact ⟨ham, rfl, change_walletBuildOutputs (ham ▸ h.front.inOrder) hmeets.remainder hmeets.foreign
    (hmeets.live _ _ hrefresh) hsubmits.covers hbuilt⟩

/-- A payment leaves the ledger without repetitions, without outputs at the indices which are still to come,
and without outputs at those which were retired. -/
theorem Settled.ledger_pay {seed : Seed} {s : Wallet × Ledger} (h : Settled libs seed s)
    (hbase58 : libs.base58.Lawful) (hinjective : Function.Injective (addressGet libs.sodium seed)) {env : Env}
    {dest : SendFundsOp} (hbound : StepBound libs s.1 (env, .sendFunds dest)) {acceptance : Acceptance}
    (hmeets : MeetsPayment libs seed s.1 s.2 env dest acceptance) {outcome : SendOutcome} {refreshed : Wallet}
    {am : WalletAm} {tx : Transaction} (hsubmits : Submits libs env s.1 dest outcome refreshed am tx)
    (hlast : s.1.addrManager.lastAddrIndex ≤ outcome.wallet.addrManager.lastAddrIndex)
    (hfirst : s.1.addrManager.firstUnspentIdx ≤ outcome.wallet.addrManager.firstUnspentIdx) :
    (s.2.after tx acceptance.id acceptance.st).Distinct ∧
      (∀ i, outcome.wallet.addrManager.lastAddrIndex < i →
        s.2.after tx acceptance.id acceptance.st (addressGet libs.sodium seed i) = []) ∧
      ∀ i, outcome.wallet.addrManager.firstUnspentIdx ≤ i → outcome.wallet.addrManager.spentAddr.marked i = true →
        s.2.after tx acceptance.id acceptance.st (addressGet libs.sodium seed i) = [] := by
  have hretires := h.retires hbase58 hinjective hbound hmeets hsubmits hlast
  obtain ⟨ham, rfl, hchange⟩ := h.change hbound hmeets hsubmits
  have hraised : outcome.wallet.addrManager.lastAddrIndex = am.lastAddrIndex := by
    rw [hsubmits.wallet_eq, lastAddrIndex_markConsumed]
  refine ⟨h.distinct.after hmeets.fresh (hchange.nodup_addresses hmeets.foreign) hchange.nodup_colors _,
    fun i hi => ?_, fun i hi hmarked => ?_⟩
  · refine Ledger.after_eq_nil ?_ (hchange.address_ne hinjective hmeets.foreign fun hle => ?_) _ _
    · rw [h.untouched i (UInt64.lt_of_le_of_lt hlast hi)]
      exact fun _ ho => absurd ho List.not_mem_nil
    · rw [hraised] at hi
      exact absurd hle (UInt64.not_le.mpr hi)
  · rw [hretires.marked, Bool.or_eq_true, decide_eq_true_eq] at hmarked
    rcases hmarked with hbefore | hconsumed
    · -- it was retired already, and the change goes to a live index
      refine Ledger.after_eq_nil ?_ (hchange.address_ne hinjective hmeets.foreign fun _ _ => ?_) _ _
      · rw [h.drained i (UInt64.le_trans hfirst hi) hbefore]
        exact fun _ ho => absurd ho List.not_mem_nil
      · exact Or.inr ⟨i, rfl, ham ▸ hbefore⟩
    · -- it is selected, so all its outputs are inputs, and the change goes elsewhere
      obtain ⟨elm, helm, rfl⟩ := List.mem_map.mp hconsumed
      rw [← hretires.bound elm helm]
      refine Ledger.after_eq_nil (fun o ho => ?_) ?_ _ _
      · rw [hsubmits.inputs_eq, mem_walletBuildInputs_iff]
        obtain ⟨id, hid, heq⟩ :=
          (mem_inputs_iff_of_shows h.placed (hretires.shown elm helm) o.outputId).mpr (List.mem_map_of_mem ho)
        exact ⟨elm, helm, id, hid, heq⟩
      · rw [hretires.bound elm helm]
        refine hchange.address_ne hinjective hmeets.foreign fun _ hfree => ?_
        rw [← hretires.bound elm helm, unspentOutputsFind, InsertionTable.find_key_of_mem helm] at hfree
        exact absurd hfree (Option.some_ne_none elm)

/-- A payment costs the wallet what a payment costs. -/
theorem Settled.worth_pay {seed : Seed} {s : Wallet × Ledger} (h : Settled libs seed s)
    (hbase58 : libs.base58.Lawful) (hinjective : Function.Injective (addressGet libs.sodium seed)) {env : Env}
    {dest : SendFundsOp} (hbound : StepBound libs s.1 (env, .sendFunds dest)) {acceptance : Acceptance}
    (hmeets : MeetsPayment libs seed s.1 s.2 env dest acceptance) {outcome : SendOutcome} {refreshed : Wallet}
    {am : WalletAm} {tx : Transaction} (hsubmits : Submits libs env s.1 dest outcome refreshed am tx)
    (hlast : s.1.addrManager.lastAddrIndex ≤ outcome.wallet.addrManager.lastAddrIndex)
    (hseed : outcome.wallet.addrManager.seed = seed) (color : Color) :
    s.2.worth libs color s.1.addrManager =
      (s.2.after tx acceptance.id acceptance.st).worth libs color outcome.wallet.addrManager +
        Payment.cost color ⟨dest, s.2, tx⟩ := by
  have hretires := h.retires hbase58 hinjective hbound hmeets hsubmits hlast
  obtain ⟨ham, rfl, hchange⟩ := h.change hbound hmeets hsubmits
  have hraised : outcome.wallet.addrManager.lastAddrIndex = am.lastAddrIndex := by
    rw [hsubmits.wallet_eq, lastAddrIndex_markConsumed]
  have hleft : ∀ j ≤ am.lastAddrIndex, unspentOutputsFind (consumedOutputs refreshed dest)
      (addressGet libs.sodium refreshed.addrManager.seed j) = none →
        ¬ AddressRetired libs refreshed (addressGet libs.sodium refreshed.addrManager.seed j) →
          j ∈ outcome.wallet.addrManager.unspentIndices.toFinset := by
    intro j hj hfree hlive
    rw [List.mem_toFinset, hretires.mem_unspentIndices, hraised]
    refine ⟨hj, ?_, ?_⟩
    · rw [← Bool.not_eq_true, ← ham]
      exact fun hmarked => hlive (Or.inr ⟨j, rfl, hmarked⟩)
    · intro hmem
      obtain ⟨elm, helm, rfl⟩ := List.mem_map.mp hmem
      rw [← hretires.bound elm helm, unspentOutputsFind, InsertionTable.find_key_of_mem helm] at hfree
      exact Option.some_ne_none elm hfree
  have hworth := hretires.worth_add_paidTo h hinjective hseed hsubmits.inputs_eq acceptance.id hmeets.confirmed color
  have hbalance : ∀ color, unspentOutputsBalanceWithColor (consumedOutputs refreshed dest) color =
      ∑ i ∈ ((consumedOutputs refreshed dest).entries.map UnspentOutputEntry.addrIndex).toFinset,
        s.2.confirmedOf color (addressGet libs.sodium refreshed.addrManager.seed i) := by
    intro color
    rw [balance_consumedOutputs h.distinct hretires.shown]
    exact SelectionBound.sum_eq hretires.bound rfl (s.2.confirmedOf color)
  rw [hchange.sum_paidTo hinjective hmeets.foreign hleft color, ← hbalance color] at hworth
  unfold Payment.cost
  by_cases hcolor : color = dest.color
  · subst hcolor
    rw [if_pos rfl] at hworth ⊢
    apply add_right_cancel (b := unspentOutputsBalanceWithColor (consumedOutputs refreshed dest) dest.color - dest.amount)
    rw [hworth, add_assoc, add_sub_cancel]
  · rw [if_neg hcolor, add_zero] at hworth
    rw [if_neg hcolor, hworth, hsubmits.inputs_eq,
      Ledger.confirmedUnder_walletBuildInputs h.placed h.distinct hretires.shown,
      balance_consumedOutputs h.distinct hretires.shown]

/-! ## A step -/

/-- A step submits nothing, and then it retires no address, or it is a payment. -/
theorem walletStep_cases {w w' : Wallet} {env : Env} {op : WalletOp} {out : List Submission}
    (hstep : walletStep libs w (env, op) = some (w', out)) :
    (out = [] ∧ ∀ addr, unspentOutputsGetSpent w'.unspent addr = unspentOutputsGetSpent w.unspent addr) ∨
      ∃ dest outcome refreshed am submission, op = .sendFunds dest ∧ outcome.wallet = w' ∧ out = [submission] ∧
        Submits libs env w dest outcome refreshed am submission.tx := by
  cases op with
  | sendFunds dest =>
    obtain ⟨outcome, hsend, heq⟩ := Option.map_eq_some_iff.mp hstep
    obtain ⟨rfl, rfl⟩ := Prod.mk.inj heq
    rcases submits_walletSendFunds libs hsend with hnothing | ⟨refreshed, am, submission, hone, hsubmits⟩
    · refine Or.inl ⟨hnothing, ?_⟩
      cases sendEnd_walletSendFunds libs env hsend with
      | refused => exact fun _ => rfl
      | insufficient _ hrefresh => exact unspentOutputsGetSpent_walletRefresh libs env hrefresh
      | invalid _ hrefresh =>
        -- the flags are in the table, which a new remainder address leaves alone
        have hflags := unspentOutputsGetSpent_walletRefresh libs env hrefresh
        exact hflags
      | submitted => exact absurd hnothing (List.cons_ne_nil _ _)
    · exact Or.inr ⟨dest, outcome, refreshed, am, submission, rfl, rfl, hone, hsubmits⟩
  | _ =>
    cases stepEnd_walletStep libs hstep <;> first
      | exact Or.inl ⟨rfl, unspentOutputsGetSpent_walletRefresh libs env (by assumption)⟩
      | exact Or.inl ⟨rfl, fun _ => rfl⟩

/-- A step leaves the wallet and the ledger settled, and costs what its payments cost. -/
theorem Settled.step {seed : Seed} {s s' : Wallet × Ledger} (h : Settled libs seed s) (hbase58 : libs.base58.Lawful)
    (hinjective : Function.Injective (addressGet libs.sodium seed)) {a : (Env × WalletOp) × Acceptance}
    (hmeets : MeetsLedger libs seed s a) {out : List Payment} (hstep : paymentStep libs s a = some (s', out)) :
    Settled libs seed s' ∧ ∀ color, s.2.worth libs color s.1.addrManager =
      s'.2.worth libs color s'.1.addrManager + (out.map (Payment.cost color)).sum := by
  obtain ⟨⟨env, op⟩, acceptance⟩ := a
  obtain ⟨⟨w', submitted⟩, hwallet, heq⟩ := Option.map_eq_some_iff.mp hstep
  obtain ⟨rfl, rfl⟩ := Prod.mk.inj heq
  have hinStep := h.inStep.step hinjective hmeets.1 hwallet
  have hfront := h.front.step hwallet
  have hlast := lastAddrIndex_walletStep hwallet
  have hfirst := firstUnspentIdx_walletStep hwallet
  rcases walletStep_cases hwallet with ⟨rfl, hsame⟩ | ⟨dest, outcome, refreshed, am, submission, rfl, rfl, rfl, hsubmits⟩
  · have hnone : op.payments s.2 [] = [] := by cases op <;> rfl
    have hmarked := h.marked_eq_of_same hinStep hsame
    refine ⟨⟨hinStep, hfront, h.placed, h.distinct, fun i hi => h.untouched i (UInt64.lt_of_le_of_lt hlast hi),
      fun i hi hmark => h.drained i (UInt64.le_trans hfirst hi) ((hmarked i).symm.trans hmark)⟩, fun color => ?_⟩
    dsimp only
    rw [hnone, List.map_nil, List.sum_nil, add_zero]
    exact h.worth_eq_of_same hinStep hlast hsame color
  · obtain ⟨hdistinct, huntouched, hdrained⟩ :=
      h.ledger_pay hbase58 hinjective hmeets.1 (hmeets.2 dest rfl) hsubmits hlast hfirst
    refine ⟨⟨hinStep, hfront, h.placed.after _ _ _, hdistinct, huntouched, hdrained⟩, fun color => ?_⟩
    rw [h.worth_pay hbase58 hinjective hmeets.1 (hmeets.2 dest rfl) hsubmits hlast hinStep.seed_eq color]
    dsimp only [WalletOp.payments]
    rw [List.map_singleton, List.map_singleton, List.sum_singleton]
    rfl

end Goshimmer
