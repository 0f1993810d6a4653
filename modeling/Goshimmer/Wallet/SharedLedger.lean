import Goshimmer.Wallet.Accounts
import Goshimmer.Wallet.Submissions

/-!
# Wallets which share a ledger

Any number of wallets, also several on one seed, and anybody else use one ledger. Their operations
interleave in any order, and any of them is restarted now and then. The wallets do not know of each other, and
what one of them retires is not retired in the tables of the others. Still no output is submitted twice, by
whichever wallets, as long as each send starts from an answer about the ledger as it is. Whoever validates a
submission finds nothing wrong with it.
-/

namespace Goshimmer

/-- Wallets around one ledger, with the transaction ids which were given out so far. -/
structure SharedLedger (I : Type) where
  wallets : I → Wallet
  ledger : Ledger
  used : List TxId

/-- What happens next: a wallet does something or is restarted, or a transaction of somebody else enters the
ledger. -/
inductive SharedEvent (I : Type)
  | wallet (k : I) (env : Env) (op : WalletOp) (acceptance : Acceptance)
  | restart (k : I) (env : Env) (url : List Byte) (port : UInt16)
  | others (tx : Transaction) (acceptance : Acceptance)

/-- A transaction which a wallet submitted, with the ledger as it was. -/
structure Spend (I : Type) where
  wallet : I
  ledger : Ledger
  submission : Submission

variable (libs : Libraries) {I : Type}

/-- One event: what wallets submit enters the ledger. -/
def sharedStep [DecidableEq I] (s : SharedLedger I) : SharedEvent I → Option (SharedLedger I × List (Spend I))
  | .wallet k env op acceptance =>
    (walletStep libs (s.wallets k) (env, op)).map fun result =>
      (⟨Function.update s.wallets k result.1,
          result.2.foldl (fun ledger submission => ledger.after submission.tx acceptance.id acceptance.st) s.ledger,
          acceptance.id :: s.used⟩,
        result.2.map fun submission => ⟨k, s.ledger, submission⟩)
  | .restart k env url port =>
    ((s.wallets k).restart libs env url port).map fun w =>
      (⟨Function.update s.wallets k w, s.ledger, s.used⟩, [])
  | .others tx acceptance =>
    some (⟨s.wallets, s.ledger.after tx acceptance.id acceptance.st, acceptance.id :: s.used⟩, [])

/-- What an event has to meet: transaction ids are new, replies are about addresses which were asked for, and
the refresh of a send is answered with the ledger as it is. -/
def MeetsShared (s : SharedLedger I) : SharedEvent I → Prop
  | .wallet k env op acceptance =>
    acceptance.id ∉ s.used ∧ StepBound libs (s.wallets k) (env, op) ∧
      ∀ dest, op = .sendFunds dest → AnswersLedger libs s.ledger env (s.wallets k) ∧
        (∃ i, (s.wallets k).addrManager.Unspent i) ∧ (s.wallets k).addrManager.lastAddrIndex.toNat + 1 < 2 ^ 64
  | .restart k env url port => MeetsRestart libs (s.wallets k) env url port
  | .others _ acceptance => acceptance.id ∉ s.used

/-- The records of every wallet are in step, and the outputs of the ledger have ids which were given out. -/
structure SharedLedger.Connected (seed : I → Seed) (s : SharedLedger I) : Prop where
  inStep : ∀ k, (s.wallets k).RecordsInStep libs (seed k)
  front : ∀ k, (s.wallets k).addrManager.FrontKept
  placed : s.ledger.Placed
  used : ∀ addr, ∀ o ∈ s.ledger addr, o.outputId.txId ∈ s.used

/-- The outputs which were there and are gone. -/
def SharedLedger.gone (s : SharedLedger I) : Set OutputId :=
  {output | output.txId ∈ s.used ∧ output ∉ s.ledger.ids output.address}

/-- What a ledger has once it took in a transaction. -/
theorem Ledger.mem_ids_after {ledger : Ledger} {tx : Transaction} {id : TxId} {st : InclusionState} {addr : Address}
    {output : OutputId} :
    output ∈ (ledger.after tx id st).ids addr ↔ (output ∈ ledger.ids addr ∧ output ∉ tx.inputs) ∨
      (∃ out ∈ tx.outputs, out.address = addr) ∧ output = txOutputId addr id := by
  simp only [Ledger.ids, Set.mem_ofPred_eq, Ledger.after, List.map_append, List.mem_append, List.mem_map,
    List.mem_filter, decide_eq_true_eq]
  constructor
  · rintro (⟨o, ⟨ho, hkept⟩, rfl⟩ | ⟨_, ⟨out, hout, rfl⟩, rfl⟩)
    · exact Or.inl ⟨⟨o, ho, rfl⟩, hkept⟩
    · exact Or.inr ⟨⟨out, hout⟩, rfl⟩
  · rintro (⟨⟨o, ho, rfl⟩, hkept⟩ | ⟨⟨out, hout⟩, rfl⟩)
    · exact Or.inl ⟨o, ⟨ho, hkept⟩, rfl⟩
    · exact Or.inr ⟨_, ⟨out, hout, rfl⟩, rfl⟩

/-- Outputs which are gone do not come back, since ids are new. -/
theorem SharedLedger.gone_subset {s : SharedLedger I} {wallets : I → Wallet} {tx : Transaction} {id : TxId}
    {st : InclusionState} (hnew : id ∉ s.used) :
    s.gone ⊆ SharedLedger.gone ⟨wallets, s.ledger.after tx id st, id :: s.used⟩ := by
  intro output hgone
  obtain ⟨hused, hnot⟩ := hgone
  refine ⟨List.mem_cons_of_mem id hused, fun hback => ?_⟩
  rcases Ledger.mem_ids_after.mp hback with ⟨hold, -⟩ | ⟨-, heq⟩
  · exact hnot hold
  · rw [heq, OutputId.txId_txOutputId] at hused
    exact hnew hused

/-- A ledger which took in a transaction has ids which were given out. -/
theorem Ledger.used_after {ledger : Ledger} {used : List TxId}
    (h : ∀ addr, ∀ o ∈ ledger addr, o.outputId.txId ∈ used) (tx : Transaction) (id : TxId) (st : InclusionState) :
    ∀ addr, ∀ o ∈ ledger.after tx id st addr, o.outputId.txId ∈ id :: used := by
  intro addr o ho
  rcases List.mem_append.mp ho with hold | hadded
  · exact List.mem_cons_of_mem id (h addr o (List.mem_of_mem_filter hold))
  · obtain ⟨out, -, rfl⟩ := List.mem_map.mp hadded
    rw [OutputId.txId_txOutputId]
    exact List.mem_cons_self

variable {libs}

/-- A wallet whose records are in step may take the place of another one. -/
theorem SharedLedger.Connected.update [DecidableEq I] {seed : I → Seed} {s : SharedLedger I}
    (h : s.Connected libs seed) {k : I} {w : Wallet} (hinStep : w.RecordsInStep libs (seed k))
    (hfront : w.addrManager.FrontKept) {ledger : Ledger} (hplaced : ledger.Placed)
    {used : List TxId} (hused : ∀ addr, ∀ o ∈ ledger addr, o.outputId.txId ∈ used) :
    SharedLedger.Connected libs seed ⟨Function.update s.wallets k w, ledger, used⟩ := by
  refine ⟨fun j => ?_, fun j => ?_, hplaced, hused⟩
  · by_cases hj : j = k
    · subst hj
      dsimp only
      rw [Function.update_self]
      exact hinStep
    · dsimp only
      rw [Function.update_of_ne hj]
      exact h.inStep j
  · by_cases hj : j = k
    · subst hj
      dsimp only
      rw [Function.update_self]
      exact hfront
    · dsimp only
      rw [Function.update_of_ne hj]
      exact h.front j

/-- What a wallet submits consumes outputs which the ledger has. -/
theorem SharedLedger.Connected.inputs_subset {seed : I → Seed} {s : SharedLedger I} (h : s.Connected libs seed)
    (hbase58 : libs.base58.Lawful) {k : I} {env : Env} {dest : SendFundsOp}
    (hanswers : AnswersLedger libs s.ledger env (s.wallets k)) (hleft : ∃ i, (s.wallets k).addrManager.Unspent i)
    (hcounts : (s.wallets k).addrManager.lastAddrIndex.toNat + 1 < 2 ^ 64) {outcome : SendOutcome}
    {refreshed : Wallet} {am : WalletAm} {tx : Transaction}
    (hsubmits : Submits libs env (s.wallets k) dest outcome refreshed am tx) :
    ∀ input ∈ tx.inputs, input ∈ s.ledger.ids input.address := by
  obtain ⟨synced, hrefresh⟩ := hsubmits.refresh
  have hshown := @shown_of_answers libs _ _ _ _ _ (h.inStep k) (h.front k) hbase58 hanswers hleft hcounts _
    hrefresh dest
  intro input hinput
  rw [hsubmits.inputs_eq, mem_walletBuildInputs_iff] at hinput
  obtain ⟨elm, helm, id, hid, rfl⟩ := hinput
  rw [OutputId.address_txOutputId]
  exact (mem_inputs_iff_of_shows h.placed (hshown elm helm) _).mp ⟨id, hid, rfl⟩

/-- The outputs which the ledger has are not gone, and those which a transaction consumes are afterwards. -/
theorem SharedLedger.Connected.consumed {seed : I → Seed} {s : SharedLedger I} (h : s.Connected libs seed)
    {wallets : I → Wallet} {tx : Transaction} {id : TxId} {st : InclusionState} (hnew : id ∉ s.used)
    {output : OutputId} (hinput : output ∈ tx.inputs) (hlisted : output ∈ s.ledger.ids output.address) :
    output ∉ s.gone ∧ output ∈ SharedLedger.gone ⟨wallets, s.ledger.after tx id st, id :: s.used⟩ := by
  obtain ⟨o, ho, heq⟩ := List.mem_map.mp hlisted
  have hused : output.txId ∈ s.used := by
    rw [← heq]
    exact h.used output.address o ho
  refine ⟨fun hgone => hgone.2 hlisted, List.mem_cons_of_mem id hused, fun hback => ?_⟩
  rcases Ledger.mem_ids_after.mp hback with ⟨-, hkept⟩ | ⟨-, hcreated⟩
  · exact hkept hinput
  · rw [hcreated, OutputId.txId_txOutputId] at hused
    exact hnew hused

variable (libs) in
/-- A spend which stands up to a validation: its inputs are in the ledger, and the message of its text stands
on its own. -/
structure Spend.Valid (spend : Spend I) : Prop where
  listed : ∀ input ∈ spend.submission.tx.inputs, input ∈ spend.ledger.ids input.address
  encoded : spend.submission.Encoded
  authorised : spend.submission.tx.InAddressSpace → spend.submission.tx.message.Authorised libs.sodium

/-- What a wallet does keeps the network connected, and what it submits is valid and not gone. -/
theorem SharedLedger.Connected.wallet_step [DecidableEq I] {seed : I → Seed} {s s' : SharedLedger I}
    (h : s.Connected libs seed) (hbase58 : libs.base58.Lawful) (hverify : libs.sodium.VerifiesOwnSignatures)
    (hinjective : ∀ k, Function.Injective (addressGet libs.sodium (seed k))) {k : I} {env : Env} {op : WalletOp}
    {acceptance : Acceptance} {out : List (Spend I)} (hmeets : MeetsShared libs s (.wallet k env op acceptance))
    (hstep : sharedStep libs s (.wallet k env op acceptance) = some (s', out)) :
    s'.Connected libs seed ∧
      ConsumesOnce SharedLedger.gone (fun spend => spend.submission.tx.inputs) id s s' out ∧
      ∀ spend ∈ out, spend.Valid libs := by
  obtain ⟨hnew, hbound, hanswers⟩ := hmeets
  obtain ⟨⟨w', submitted⟩, hwallet, heq⟩ := Option.map_eq_some_iff.mp hstep
  obtain ⟨rfl, rfl⟩ := Prod.mk.inj heq
  have hinStep := (h.inStep k).step (hinjective k) hbound hwallet
  have hfront := (h.front k).step hwallet
  rcases walletStep_cases hwallet with ⟨rfl, -⟩ | ⟨dest, outcome, refreshed, am, submission, rfl, rfl, rfl, hsubmits⟩
  · -- nothing is submitted, and the id is taken though nothing came of it
    have hused : ∀ addr, ∀ o ∈ s.ledger addr, o.outputId.txId ∈ acceptance.id :: s.used :=
      fun addr o ho => List.mem_cons_of_mem acceptance.id (h.used addr o ho)
    refine ⟨h.update hinStep hfront h.placed hused, ⟨?_, Nat.zero_le _, by simp, by simp⟩, by simp⟩
    intro output hgone
    exact ⟨List.mem_cons_of_mem acceptance.id hgone.1, hgone.2⟩
  · obtain ⟨hledger, hleft, hcounts⟩ := hanswers dest rfl
    have hinputs := h.inputs_subset hbase58 hledger hleft hcounts hsubmits
    refine ⟨h.update hinStep hfront (h.placed.after _ _ _) (Ledger.used_after h.used _ _ _),
      ⟨SharedLedger.gone_subset hnew, le_refl 1, ?_, ?_⟩, ?_⟩
    · intro spend hspend
      rw [List.mem_singleton.mp hspend, hsubmits.inputs_eq]
      exact nodup_walletBuildInputs _
    · intro spend hspend input hinput
      rw [List.mem_singleton.mp hspend] at hinput
      exact h.consumed hnew hinput (hinputs input hinput)
    · intro spend hspend
      rw [List.mem_singleton.mp hspend]
      exact ⟨hinputs, encoded_walletStep libs hwallet submission (List.mem_singleton_self _),
        hbound.authorised libs hverify hwallet submission (List.mem_singleton_self _)⟩

/-- Every event does. -/
theorem SharedLedger.Connected.step [DecidableEq I] {seed : I → Seed} {s s' : SharedLedger I}
    (h : s.Connected libs seed) (hbase58 : libs.base58.Lawful) (hverify : libs.sodium.VerifiesOwnSignatures)
    (hinjective : ∀ k, Function.Injective (addressGet libs.sodium (seed k)))
    {event : SharedEvent I} {out : List (Spend I)} (hmeets : MeetsShared libs s event)
    (hstep : sharedStep libs s event = some (s', out)) :
    s'.Connected libs seed ∧
      ConsumesOnce SharedLedger.gone (fun spend => spend.submission.tx.inputs) id s s' out ∧
      ∀ spend ∈ out, spend.Valid libs := by
  cases event with
  | wallet k env op acceptance => exact h.wallet_step hbase58 hverify hinjective hmeets hstep
  | restart k env url port =>
    obtain ⟨w', hrestart, heq⟩ := Option.map_eq_some_iff.mp hstep
    obtain ⟨rfl, rfl⟩ := Prod.mk.inj heq
    obtain ⟨hinStep, hfront⟩ := (h.inStep k).restart (h.front k) (hinjective k) hmeets hrestart
    exact ⟨h.update hinStep hfront h.placed h.used, .of_same rfl, by simp⟩
  | others tx acceptance =>
    obtain ⟨rfl, rfl⟩ := Prod.mk.inj (Option.some.inj hstep)
    refine ⟨⟨h.inStep, h.front, h.placed.after _ _ _, Ledger.used_after h.used _ _ _⟩,
      ⟨SharedLedger.gone_subset hmeets, Nat.zero_le _, by simp, by simp⟩, by simp⟩

end Goshimmer
