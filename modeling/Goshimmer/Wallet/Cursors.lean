import Goshimmer.Client.Faithful
import Goshimmer.Wallet.Changes

/-!
# The cursor on the first unspent address

The cursor never passes the largest index: marking moves it to an index below the largest one or
leaves it, and the largest index only rises.
-/

namespace Goshimmer

variable (libs : Libraries)

/-- The cursor after an index was marked: it stays, or it moves on below the largest index, over indices
which read as spent. -/
theorem firstUnspentIdx_amMarkSpentAddress (heap : UInt64 → Byte) (am : WalletAm) (index : UInt64) :
    (amMarkSpentAddress heap am index).firstUnspentIdx = am.firstUnspentIdx ∨
      ((amMarkSpentAddress heap am index).firstUnspentIdx < am.lastAddrIndex ∧
        ∀ i, am.firstUnspentIdx ≤ i → i < (amMarkSpentAddress heap am index).firstUnspentIdx →
          bitmaskGet heap (amMarkSpentAddress heap am index).spentAddr i = true) := by
  rw [amMarkSpentAddress_eq]
  dsimp only
  split
  · rcases find_indicesBelow_cases am.firstUnspentIdx am.lastAddrIndex am.firstUnspentIdx fun i =>
        decide (bitmaskGet heap (bitmaskOp true am.spentAddr index .set).2 i = false) with
      ⟨k, hfound, hk, -, hpassed⟩ | ⟨hfound, -⟩
    · rw [hfound]
      refine Or.inr ⟨hk, fun i hfirst hi => ?_⟩
      exact Bool.eq_true_of_not_eq_false (of_decide_eq_false (hpassed i hfirst hi))
    · exact Or.inl hfound
  · exact Or.inl rfl

/-- The cursor is not behind the largest index. -/
def WalletAm.InOrder (am : WalletAm) : Prop := am.firstUnspentIdx ≤ am.lastAddrIndex

/-- Asking for an address keeps the cursors in order. -/
theorem WalletAm.InOrder.amGetAddress {am : WalletAm} (h : am.InOrder) (sodium : Sodium) (index : UInt64) :
    (amGetAddress sodium am index).1.InOrder := by
  unfold WalletAm.InOrder at h ⊢
  rw [amGetAddress_eq]
  dsimp only
  split
  · next hless => exact UInt64.le_trans h (UInt64.le_of_lt hless)
  · exact h

/-- Marking an index keeps the cursors in order. -/
theorem WalletAm.InOrder.amMarkSpentAddress {am : WalletAm} (h : am.InOrder) (heap : UInt64 → Byte)
    (index : UInt64) : (amMarkSpentAddress heap am index).InOrder := by
  unfold WalletAm.InOrder at h ⊢
  rw [lastAddrIndex_amMarkSpentAddress]
  rcases firstUnspentIdx_amMarkSpentAddress heap am index with hsame | ⟨hless, -⟩
  · rw [hsame]
    exact h
  · exact UInt64.le_of_lt hless

/-- Every step keeps the cursors in order. -/
theorem WalletAm.InOrder.step {w w' : Wallet} (h : w.addrManager.InOrder) {op : Env × WalletOp}
    {out : List Submission} (hstep : walletStep libs w op = some (w', out)) : w'.addrManager.InOrder :=
  addrManager_invariant libs WalletAm.InOrder (fun _ index ham => ham.amGetAddress libs.sodium index)
    (fun heap _ index ham => ham.amMarkSpentAddress heap index) h hstep

/-- An initialised wallet has the parameters of the initialisation in its address manager. -/
theorem addrManager_walletInit {env : Env} {url : List Byte} {port : UInt16} {seed : Seed}
    {lastAddr firstUnspent lastUnspent : UInt64} {initial : Wallet}
    (h : walletInit libs env url port seed lastAddr firstUnspent lastUnspent = some initial) :
    initial.addrManager =
      { seed := seed, lastAddrIndex := lastAddr,
        spentAddr := (indicesBelow 0 firstUnspent).foldl (fun mask i => (bitmaskOp true mask i .set).2) bitmaskNew,
        firstUnspentIdx := firstUnspent, lastUnspentIdx := lastUnspent } := by
  obtain ⟨start, hlocal, hrefreshed⟩ := Option.bind_eq_some_iff.mp h
  obtain ⟨result, hrefresh, rfl⟩ := Option.map_eq_some_iff.mp hrefreshed
  obtain ⟨indices, _, hstart⟩ := Option.map_eq_some_iff.mp hlocal
  rw [addrManager_walletRefresh libs env hrefresh, ← hstart]
  rfl

/-- In every run from an initialised wallet whose cursors are in order they stay in order. -/
theorem inOrder_of_run {env : Env} {url : List Byte} {port : UInt16} {seed : Seed}
    {lastAddr firstUnspent lastUnspent : UInt64} {initial w : Wallet} {log : List Submission}
    {meets : Wallet → Env × WalletOp → Prop} (hcursors : firstUnspent ≤ lastAddr)
    (hinit : walletInit libs env url port seed lastAddr firstUnspent lastUnspent = some initial)
    (hrun : Run (walletStep libs) meets initial w log) : w.addrManager.InOrder := by
  have hstart : initial.addrManager.InOrder := by
    rw [addrManager_walletInit libs hinit]
    exact hcursors
  induction hrun with
  | start => exact hstart
  | next _ _ hstep ih => exact ih.step libs hstep

/-! ## A node which reports five tokens -/

/-- The address of an index of the all-zero seed. -/
def zeroSeedAddress (i : UInt64) : Address := addressGet transparentSodium (Bytes.zero 32) i

/-- A confirmed output of five plain tokens at such an address. -/
def fiveListing (i : UInt64) : List AddressListing :=
  [⟨zeroSeedAddress i, [⟨txOutputId (zeroSeedAddress i) (Bytes.zero 32),
    ⟨false, true, false, false, false, false, false⟩, [⟨5, Bytes.zero 32⟩]⟩]⟩]

/-- The text of a reply with this output. -/
def fiveReply (i : UInt64) : List Byte :=
  cText "\x7b\"unspent_outputs\":[\x7b\"address\":\"" ++ base58Encode (zeroSeedAddress i).val ++
    cText "\",\"output_ids\":[\x7b\"id\":\"" ++
    base58Encode (txOutputId (zeroSeedAddress i) (Bytes.zero 32)).val ++
    cText "\",\"balances\":[\x7b\"value\":5,\"color\":\"IOTA\"\x7d],\"inclusion_state\":\x7b" ++
    cText "\"solid\":false,\"confirmed\":true,\"rejected\":false,\"liked\":false," ++
    cText "\"conflicting\":false,\"finalized\":false,\"preferred\":false\x7d\x7d]\x7d]\x7d"

/-- The libraries with a parser which knows these replies for the first two indices. -/
def fiveLibraries : Libraries :=
  sampleLibraries [(fiveReply 0, replyDocument sampleBase58 (fiveListing 0)),
    (fiveReply 1, replyDocument sampleBase58 (fiveListing 1))]

/-- The replies with the five tokens are known to the parser. -/
theorem parseBody_fiveReply {i : UInt64} (hi : i = 0 ∨ i = 1) :
    fiveLibraries.cjson.parseBody (fiveReply i) = some (replyDocument sampleBase58 (fiveListing i)) := by
  rcases hi with rfl | rfl
  · have htext : (fiveReply 0).isEmpty = false ∧ (fiveReply 0).takeWhile (· ≠ 0) = fiveReply 0 := by
      decide +kernel
    rw [CJsonLib.parseBody, htext.1, htext.2]
    simp [fiveLibraries, sampleLibraries]
  · have htext : (fiveReply 1).isEmpty = false ∧ (fiveReply 1).takeWhile (· ≠ 0) = fiveReply 1 ∧
        fiveReply 0 ≠ fiveReply 1 := by
      decide +kernel
    rw [CJsonLib.parseBody, htext.1, htext.2.1]
    simp [fiveLibraries, sampleLibraries, htext.2.2]

/-- A node which answers with such a reply. -/
def fiveNode (i : UInt64) : Env := { unreachable with node := fun _ => some (fiveReply i) }

/-- The five tokens as the decoder puts them into a table. -/
def fiveIds : OutputIds := withOutput outputIdsInit 0 true [⟨5, plain⟩]

/-- An entry of such an address. -/
def zeroSeedEntry (i recorded : UInt64) (spent : Bool) (ids : OutputIds) : UnspentOutputEntry :=
  ⟨recorded, zeroSeedAddress i, spent, ids⟩

/-- The decoder reads the five tokens out of the reply. -/
theorem refreshReply_fiveNode {i : UInt64} (hi : i = 0 ∨ i = 1) (w : Wallet) {addrs : List AddressT}
    (hrequest : (unspentOutputsRequest fiveLibraries addrs).isSome) :
    refreshReply fiveLibraries (fiveNode i) w addrs = (0, listingTable (fiveListing i)) := by
  obtain ⟨req, hreq⟩ := Option.isSome_iff_exists.mp hrequest
  have hvalues : ∀ a ∈ fiveListing i, ∀ o ∈ a.outputs, ∀ b ∈ o.balances, 0 ≤ b.value.toInt := by
    simp [fiveListing]
  have hlists := lists_replyDocument fiveLibraries (fiveNode i).past base58Lawful_sample
    (List.cons_ne_nil _ _) hvalues
  rw [refreshReply, getUnspentOutputs, hreq]
  exact deserUnspentOutputs_of_lists fiveLibraries _ base58Lawful_sample (parseBody_fiveReply hi) rfl hlists

/-- So a refresh which the node answers puts them into the table of the wallet. -/
theorem walletRefresh_fiveNode {i : UInt64} (hi : i = 0 ∨ i = 1) {w : Wallet} {addrs : List AddressT}
    (haddrs : refreshAddresses fiveLibraries (fiveNode i) w false = some addrs) (hasked : addrs ≠ [])
    (hrequest : (unspentOutputsRequest fiveLibraries addrs).isSome) :
    walletRefresh fiveLibraries (fiveNode i) w false =
      some (true, { w with unspent := (listingTable (fiveListing i)).entries.foldl refreshEntry w.unspent }) := by
  unfold walletRefresh
  rw [haddrs]
  cases addrs with
  | nil => exact absurd rfl hasked
  | cons first rest =>
    dsimp only
    rw [refreshReply_fiveNode hi w hrequest, if_pos rfl]

/-- A wallet of the all-zero seed whose cursor is at index 0. -/
def zeroSeedWallet (lastAddr lastUnspent : UInt64) (mask : List Byte) (entries : List UnspentOutputEntry) :
    Wallet where
  endpoint := ⟨cText "http://node/", 0⟩
  addrManager := ⟨Bytes.zero 32, lastAddr, ⟨mask⟩, 0, lastUnspent⟩
  unspent := entries.foldl InsertionTable.insertNew InsertionTable.empty

/-- A send which leaves a wallet behind is a step. -/
theorem exists_step_of_walletSendFunds (env : Env) (w w' : Wallet) (dest : SendFundsOp)
    (h : (walletSendFunds libs env w dest).map SendOutcome.wallet = some w') :
    ∃ out, walletStep libs w (env, .sendFunds dest) = some (w', out) := by
  obtain ⟨outcome, hsend, rfl⟩ := Option.map_eq_some_iff.mp h
  exact ⟨outcome.submitted, by simp only [walletStep, hsend, Option.map_some]⟩

/-- A wallet with one address. -/
def oneAddress : Wallet := zeroSeedWallet 0 0 [0] [zeroSeedEntry 0 0 false outputIdsInit]

/-- It is an initialised wallet. -/
theorem walletInit_oneAddress :
    walletInit fiveLibraries unreachable (cText "http://node/") 0 (Bytes.zero 32) 0 0 0 = some oneAddress := by
  decide

/-- A wallet with five plain tokens at its only address. -/
def fiveWallet : Wallet := zeroSeedWallet 0 0 [0] [zeroSeedEntry 0 0 false fiveIds]

/-- The address which the refresh of the first one asks for. -/
theorem refreshAddresses_oneAddress :
    refreshAddresses fiveLibraries (fiveNode 0) oneAddress false = some [⟨0, zeroSeedAddress 0⟩] := by
  decide

/-- The second one is what this refresh makes of the first. -/
theorem walletRefresh_oneAddress :
    walletRefresh fiveLibraries (fiveNode 0) oneAddress false = some (true, fiveWallet) := by
  rw [walletRefresh_fiveNode (Or.inl rfl) refreshAddresses_oneAddress (List.cons_ne_nil _ _) (by decide)]
  decide

/-- A payment out of the five tokens which the node reports at index 0. -/
def payReported (amount : UInt64) : Option SendOutcome :=
  walletSendFunds fiveLibraries (fiveNode 0) oneAddress (plainRequest amount)

/-- A payment which returns is a step. -/
theorem walletStep_payReported {amount : UInt64} (h : (payReported amount).isSome) :
    walletStep fiveLibraries oneAddress (fiveNode 0, .sendFunds (plainRequest amount)) =
      some (((payReported amount).get h).wallet, ((payReported amount).get h).submitted) := by
  have hsend : walletSendFunds fiveLibraries (fiveNode 0) oneAddress (plainRequest amount) =
      some ((payReported amount).get h) := (Option.some_get h).symm
  simp only [walletStep, hsend, Option.map_some]

/-- A payment goes on from the refreshed wallet when this covers it. -/
theorem walletSendFunds_plainRequest {env : Env} {w refreshed : Wallet} {amount : UInt64} {synced : Bool}
    (hamount : amount ≠ 0) (hrefresh : walletRefresh fiveLibraries env w false = some (synced, refreshed))
    (hpasses : PassesBalanceCheck refreshed (plainRequest amount)) :
    walletSendFunds fiveLibraries env w (plainRequest amount) =
      spendConsumed fiveLibraries env refreshed (plainRequest amount)
        (consumedOutputs refreshed (plainRequest amount)) := by
  refine (walletSendFunds_of_balanceCheck fiveLibraries ?_ hrefresh).1 hpasses
  rintro (hzero | hreceiver)
  · exact hamount hzero
  · have hnine : emptyByteArray (repeatedByte 33 9) = false := by decide
    exact absurd (hnine.symm.trans hreceiver) Bool.false_ne_true

/-- The payments which the five tokens cover. -/
theorem passesBalanceCheck_fiveWallet {amount : UInt64} (h : amount = 3 ∨ amount = 5) :
    PassesBalanceCheck fiveWallet (plainRequest amount) := by
  unfold PassesBalanceCheck
  rcases h with rfl | rfl
  · decide
  · decide

/-- They are paid from the wallet with the five tokens. -/
theorem payReported_eq {amount : UInt64} (h : amount = 3 ∨ amount = 5) :
    payReported amount = spendConsumed fiveLibraries (fiveNode 0) fiveWallet (plainRequest amount)
      (consumedOutputs fiveWallet (plainRequest amount)) := by
  have hamount : amount ≠ 0 := by
    rintro rfl
    exact absurd h (by decide)
  exact walletSendFunds_plainRequest hamount walletRefresh_oneAddress (passesBalanceCheck_fiveWallet h)

/-- The outcome of such a payment. -/
theorem payReported_get {amount : UInt64} (h : amount = 3 ∨ amount = 5) (hsome : (payReported amount).isSome) :
    (payReported amount).get hsome =
      (spendConsumed fiveLibraries (fiveNode 0) fiveWallet (plainRequest amount)
        (consumedOutputs fiveWallet (plainRequest amount))).get (by rwa [← payReported_eq h]) := by
  simp only [payReported_eq h]

/-- All five tokens can be paid. -/
theorem payReportedFive_isSome : (payReported 5).isSome := by
  rw [payReported_eq (Or.inr rfl)]
  decide +kernel

/-- Three of them can be paid. -/
theorem payReportedThree_isSome : (payReported 3).isSome := by
  rw [payReported_eq (Or.inl rfl)]
  decide +kernel

end Goshimmer
