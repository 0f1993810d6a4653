import Goshimmer.Library.ConsumeOnce
import Goshimmer.Wallet.Consumption

/-!
# Runs of a wallet

A run applies the operations of the wallet one after the other, each with its own surroundings, so
the node may answer differently every time. The log collects the transactions handed to the node.

No operation ever takes the spent flag of an address back: a refresh restores the flag which it
found, an added address was not spent before, and a send only sets flags. A send selects addresses
whose flag is not set and sets it before it returns. So no address pays twice in a run, and no
output is consumed twice.
-/

namespace Goshimmer

/-- The operations of a wallet. -/
inductive WalletOp
  | refresh (includeSpent : Bool)
  | balance
  | receiveAddress
  | newReceiveAddress
  | remainderAddress
  | sendFunds (dest : SendFundsOp)

variable (libs : Libraries)

/-- One operation in its surroundings: the wallet afterwards and what was handed to the node. An
operation which does not return yields nothing. -/
def walletStep (w : Wallet) (op : Env × WalletOp) : Option (Wallet × List Submission) :=
  match op.2 with
  | .refresh includeSpent => (walletRefresh libs op.1 w includeSpent).map fun result => (result.2, [])
  | .balance => (walletBalance libs op.1 w).map fun result => (result.2, [])
  | .receiveAddress => some ((walletReceiveAddress libs w).1, [])
  | .newReceiveAddress => some ((walletNewReceiveAddress libs w).1, [])
  | .remainderAddress => some ((walletRemainderAddress libs w).1, [])
  | .sendFunds dest =>
    (walletSendFunds libs op.1 w dest).map fun outcome => (outcome.wallet, outcome.submitted)

/-- The index whose address an operation asks the address manager for. -/
def WalletOp.askedIndex (am : WalletAm) : WalletOp → Option UInt64
  | .receiveAddress => some am.lastUnspentIdx
  | .newReceiveAddress => some (am.lastAddrIndex + 1)
  | .remainderAddress => some am.firstUnspentIdx
  | _ => none

/-- What a step which returns can do: it refreshes, it asks the address manager for an address, or it
sends funds. -/
inductive StepEnd (env : Env) (w : Wallet) : WalletOp → Wallet → List Submission → Prop
  /-- A refresh. -/
  | refreshed {includeSpent synced : Bool} {w' : Wallet}
      (hrefresh : walletRefresh libs env w includeSpent = some (synced, w')) :
      StepEnd env w (.refresh includeSpent) w' []
  /-- A balance, which is read after a refresh. -/
  | balanced {synced : Bool} {w' : Wallet}
      (hrefresh : walletRefresh libs env w false = some (synced, w')) : StepEnd env w .balance w' []
  /-- An address. -/
  | asked {op : WalletOp} {index : UInt64} (hindex : op.askedIndex w.addrManager = some index) :
      StepEnd env w op { w with addrManager := (amGetAddress libs.sodium w.addrManager index).1 } []
  /-- A call of `wallet_send_funds`. -/
  | sent {dest : SendFundsOp} {outcome : SendOutcome} (hend : SendEnd libs env w dest outcome) :
      StepEnd env w (.sendFunds dest) outcome.wallet outcome.submitted

/-- Every step which returns does one of these. -/
theorem stepEnd_walletStep {env : Env} {w w' : Wallet} {op : WalletOp} {out : List Submission}
    (h : walletStep libs w (env, op) = some (w', out)) : StepEnd libs env w op w' out := by
  cases op with
  | refresh includeSpent =>
    obtain ⟨result, hrefresh, heq⟩ := Option.map_eq_some_iff.mp h
    obtain ⟨rfl, rfl⟩ := Prod.mk.inj heq
    exact .refreshed hrefresh
  | balance =>
    obtain ⟨result, hbalance, heq⟩ := Option.map_eq_some_iff.mp h
    obtain ⟨rfl, rfl⟩ := Prod.mk.inj heq
    obtain ⟨refreshed, hrefresh, rfl⟩ := Option.map_eq_some_iff.mp hbalance
    exact .balanced hrefresh
  | receiveAddress =>
    obtain ⟨rfl, rfl⟩ := Prod.mk.inj (Option.some.inj h)
    exact .asked rfl
  | newReceiveAddress =>
    obtain ⟨rfl, rfl⟩ := Prod.mk.inj (Option.some.inj h)
    exact .asked rfl
  | remainderAddress =>
    obtain ⟨rfl, rfl⟩ := Prod.mk.inj (Option.some.inj h)
    exact .asked rfl
  | sendFunds dest =>
    obtain ⟨outcome, hsend, heq⟩ := Option.map_eq_some_iff.mp h
    obtain ⟨rfl, rfl⟩ := Prod.mk.inj heq
    exact .sent (sendEnd_walletSendFunds libs env hsend)

/-! ## Marking the consumed addresses -/

/-- The flags after the marking loop. -/
theorem unspent_markConsumed (heap : UInt64 → Byte) (w : Wallet) (consumed : UnspentOutputs) :
    (markConsumed heap w consumed).unspent =
      consumed.entries.foldl (fun t elm => unspentOutputsSetSpent t elm.addr true) w.unspent := by
  unfold markConsumed
  generalize consumed.entries = l
  induction l generalizing w with
  | nil => rfl
  | cons elm rest ih => rw [List.foldl_cons, List.foldl_cons, ih]

/-- After marking addresses of a table they are spent, and the other flags are as they were. -/
theorem unspentOutputsGetSpent_foldl_setSpent (l : List UnspentOutputEntry) (t : UnspentOutputs)
    (addr : Address) :
    unspentOutputsGetSpent (l.foldl (fun t elm => unspentOutputsSetSpent t elm.addr true) t) addr =
      (unspentOutputsGetSpent t addr ||
        (decide (addr ∈ l.map UnspentOutputEntry.addr) && (t.find addr).isSome)) := by
  induction l generalizing t with
  | nil => simp
  | cons elm rest ih =>
    have hfind : ((unspentOutputsSetSpent t elm.addr true).find addr).isSome = (t.find addr).isSome := by
      rw [unspentOutputsSetSpent, InsertionTable.find_modify]
      split <;> simp
    rw [List.foldl_cons, ih, hfind, unspentOutputsGetSpent_setSpent]
    by_cases h : elm.addr = addr
    · subst h
      cases hsome : t.find elm.addr <;> simp [unspentOutputsGetSpent, unspentOutputsFind, hsome]
    · simp [h, Ne.symm h]

/-! ## One step -/

/-- The inputs of a selection are pairwise distinct. -/
theorem nodup_walletBuildInputs (t : UnspentOutputs) : (walletBuildInputs t).Nodup := by
  rw [walletBuildInputs, List.nodup_flatMap]
  constructor
  · intro elm _
    refine List.Nodup.of_map OutputId.txId ?_
    rw [List.map_map]
    have hids : (OutputId.txId ∘ fun id : OutputIdEntry => txOutputId elm.addr id.id) =
        OutputIdEntry.id := by
      funext id
      exact OutputId.txId_txOutputId elm.addr id.id
    rw [hids]
    exact elm.ids.nodup
  · have haddrs := List.pairwise_map.mp t.nodup
    refine haddrs.imp fun hne => ?_
    intro input hleft hright
    obtain ⟨id, _, rfl⟩ := List.mem_map.mp hleft
    obtain ⟨id', _, heq⟩ := List.mem_map.mp hright
    have haddr := congrArg OutputId.address heq
    rw [OutputId.address_txOutputId, OutputId.address_txOutputId] at haddr
    exact hne haddr.symm

/-- The addresses which a wallet has marked as spent. -/
def spentAddresses (w : Wallet) : Set Address :=
  {addr | unspentOutputsGetSpent w.unspent addr = true}

/-- A step consumes outputs once: it takes no flag back, and what it hands to the node consumes
distinct outputs of addresses which were not spent before and are afterwards. -/
abbrev SpendsOnce (w w' : Wallet) (out : List Submission) : Prop :=
  ConsumesOnce spentAddresses (fun submission : Submission => submission.tx.inputs) OutputId.address
    w w' out

/-- A refresh keeps the spent addresses. -/
theorem spentAddresses_walletRefresh {env : Env} {w w' : Wallet} {includeSpent synced : Bool}
    (h : walletRefresh libs env w includeSpent = some (synced, w')) :
    spentAddresses w' = spentAddresses w := by
  ext addr
  unfold spentAddresses
  rw [Set.mem_ofPred_eq, Set.mem_ofPred_eq, unspentOutputsGetSpent_walletRefresh libs env h]

/-- The marking loop adds the consumed addresses, as far as the table has them. -/
theorem mem_spentAddresses_markConsumed (heap : UInt64 → Byte) (w : Wallet) (consumed : UnspentOutputs)
    (addr : Address) :
    addr ∈ spentAddresses (markConsumed heap w consumed) ↔
      addr ∈ spentAddresses w ∨
        (addr ∈ consumed.entries.map UnspentOutputEntry.addr ∧ (w.unspent.find addr).isSome) := by
  unfold spentAddresses
  rw [Set.mem_ofPred_eq, Set.mem_ofPred_eq, unspent_markConsumed, unspentOutputsGetSpent_foldl_setSpent,
    Bool.or_eq_true, Bool.and_eq_true, decide_eq_true_eq]

/-- A call of `wallet_send_funds` spends once. -/
theorem spendsOnce_walletSendFunds {env : Env} {w : Wallet} {dest : SendFundsOp} {outcome : SendOutcome}
    (h : SendEnd libs env w dest outcome) : SpendsOnce w outcome.wallet outcome.submitted := by
  cases h with
  | refused => exact .of_same rfl
  | insufficient _ hrefresh _ => exact .of_same (spentAddresses_walletRefresh libs hrefresh)
  | invalid _ hrefresh _ _ _ _ =>
    have hsame := spentAddresses_walletRefresh libs hrefresh
    exact .of_same hsame
  | @submitted synced refreshed tx am dest' txBytes ret _ hrefresh _ _ hbuilt _ =>
    have hrefreshed : spentAddresses refreshed = spentAddresses w :=
      spentAddresses_walletRefresh libs hrefresh
    -- the flags are in the table, which a new remainder address leaves alone
    have hsame : spentAddresses { refreshed with addrManager := am } = spentAddresses w := hrefreshed
    refine ⟨?_, by simp, ?_, ?_⟩
    · intro addr haddr
      rw [mem_spentAddresses_markConsumed, hsame]
      exact Or.inl haddr
    · intro submission hsubmission
      rw [List.mem_singleton.mp hsubmission, hbuilt.inputs_eq]
      exact nodup_walletBuildInputs _
    · intro submission hsubmission input hinput
      rw [List.mem_singleton.mp hsubmission, hbuilt.inputs_eq] at hinput
      obtain ⟨elm, helm, id, _, rfl⟩ := (mem_walletBuildInputs_iff _ _).mp hinput
      have hfound := InsertionTable.find_key_of_mem (mem_of_mem_consumedOutputs helm)
      rw [OutputId.address_txOutputId, mem_spentAddresses_markConsumed, ← hsame]
      constructor
      · intro hspent
        have hflag : elm.spent = true := by
          simpa only [spentAddresses, Set.mem_ofPred_eq, unspentOutputsGetSpent, unspentOutputsFind,
            hfound] using hspent
        rw [(mem_of_selected helm).2.1] at hflag
        exact Bool.noConfusion hflag
      · exact Or.inr ⟨List.mem_map_of_mem helm, by rw [hfound, Option.isSome_some]⟩

/-- Every step spends once. -/
theorem spendsOnce_walletStep {w w' : Wallet} {op : Env × WalletOp} {out : List Submission}
    (h : walletStep libs w op = some (w', out)) : SpendsOnce w w' out := by
  obtain ⟨env, op⟩ := op
  cases stepEnd_walletStep libs h with
  | refreshed hrefresh => exact .of_same (spentAddresses_walletRefresh libs hrefresh)
  | balanced hrefresh => exact .of_same (spentAddresses_walletRefresh libs hrefresh)
  | asked _ => exact .of_same rfl
  | sent hend => exact spendsOnce_walletSendFunds libs hend

/-! ## Whole runs -/

/-- No output is consumed twice in a run, and no two of its transactions consume outputs of one
address. -/
theorem no_double_spend {w w' : Wallet} {log : List Submission}
    (hrun : Run (walletStep libs) (fun _ _ => True) w w' log) :
    (log.flatMap fun submission => submission.tx.inputs).Nodup ∧
      log.Pairwise fun earlier later =>
        ∀ input ∈ earlier.tx.inputs, ∀ input' ∈ later.tx.inputs, input.address ≠ input'.address := by
  have hconsumed : ConsumedOnce spentAddresses (fun submission : Submission => submission.tx.inputs)
      OutputId.address w' log :=
    Run.consumedOnce (fun _ hstep => spendsOnce_walletStep libs hstep) hrun
  exact ⟨hconsumed.distinct, hconsumed.separate⟩

/-- A wallet with five plain tokens at each of two addresses. -/
def fiveTwice : Wallet :=
  { smallWallet fivePlain with
    unspent := (unspentOutputsAdd (smallWallet fivePlain).unspent
      (addressGet transparentSodium (Bytes.zero 32) 1) 1 fivePlain).2 }

/-- Paying five tokens through the unreachable node. -/
def payFiveFrom (w : Wallet) : Option SendOutcome :=
  walletSendFunds (sampleLibraries []) unreachable w (plainRequest 5)

/-- A payment which returns is a step. -/
theorem walletStep_payFiveFrom {w : Wallet} {outcome : SendOutcome} (h : payFiveFrom w = some outcome) :
    walletStep (sampleLibraries []) w (unreachable, .sendFunds (plainRequest 5)) =
      some (outcome.wallet, outcome.submitted) := by
  have hsend : walletSendFunds (sampleLibraries []) unreachable w (plainRequest 5) = some outcome := h
  simp only [walletStep, hsend, Option.map_some]

/-- The wallet pays five tokens, and then five tokens again, with a transaction each. -/
theorem payFiveFrom_fiveTwice :
    ((payFiveFrom fiveTwice).bind fun first => (payFiveFrom first.wallet).map fun second =>
      (first.submitted.length, second.submitted.length)) = some (1, 1) := by
  decide +kernel

/-- The two transactions do not consume the same output. -/
theorem no_double_spend_fiveTwice :
    ∃ first second, payFiveFrom fiveTwice = some first ∧ payFiveFrom first.wallet = some second ∧
      (first.submitted.length, second.submitted.length) = (1, 1) ∧
      ((first.submitted ++ second.submitted).flatMap fun submission => submission.tx.inputs).Nodup := by
  obtain ⟨first, hfirst, hrest⟩ := Option.bind_eq_some_iff.mp payFiveFrom_fiveTwice
  obtain ⟨second, hsecond, hlengths⟩ := Option.map_eq_some_iff.mp hrest
  exact ⟨first, second, hfirst, hsecond, hlengths, (no_double_spend (sampleLibraries [])
    (.next (Run.single trivial (walletStep_payFiveFrom hfirst)) trivial (walletStep_payFiveFrom hsecond))).1⟩

end Goshimmer
