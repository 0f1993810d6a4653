import Goshimmer.Client.StrayText
import Goshimmer.Core.HostMemory
import Goshimmer.Library.Run
import Goshimmer.Wallet.RecordRuns
import Mathlib.Data.List.Find

/-!
# Runs and the memory around them

An operation meets memory which is not its own: what lies behind the text buffers of the decoder and behind
the mask, the table pointer of a refresh which was never set, and the contents of new blocks. A mask which
reaches over all indices is never read beyond its end, texts which fit are not read beyond their buffers, and
the pointer is looked at only where no address is left to ask for. Apart from these the whole run of a wallet
follows from the node and from which allocations succeed.
-/

namespace Goshimmer

variable (libs : Libraries)

/-- Two surroundings of an operation with the same node, where every allocation has the same outcome; the
memory may be another one. -/
structure Env.SameButStray (env env' : Env) : Prop where
  node : env.node = env'.node
  signHost : env.signHost.SameOutcome env'.signHost
  signGranted : env.signGranted = env'.signGranted
  validHost : ∀ call, (env.validHost call).SameOutcome (env'.validHost call)
  base64Host : env.base64Host.SameOutcome env'.base64Host

/-- The mask reaches over all indices, and the cursor of the last unspent one is among them. -/
structure WalletAm.MaskReaches (am : WalletAm) : Prop where
  covered : am.Covered
  lastUnspentIdx_le : am.lastUnspentIdx ≤ am.lastAddrIndex

/-! ## The address manager -/

/-- Asking for an address keeps the mask over all indices. -/
theorem WalletAm.MaskReaches.amGetAddress {am : WalletAm} (h : am.MaskReaches) (sodium : Sodium) (index : UInt64) :
    (amGetAddress sodium am index).1.MaskReaches := by
  refine ⟨h.covered.amGetAddress sodium index, ?_⟩
  have hle := h.lastUnspentIdx_le
  rw [amGetAddress_eq]
  dsimp only
  split
  · split
    · exact UInt64.le_refl _
    · next hlast => exact UInt64.not_lt.mp hlast
  · split
    · next hlast => exact UInt64.le_trans hle (UInt64.le_of_lt hlast)
    · exact hle

/-- The search for the last unspent index ends at or below where it started. -/
theorem lastUnspentIdx_amMarkSpentAddress_le (heap : UInt64 → Byte) (am : WalletAm) (index : UInt64) :
    (amMarkSpentAddress heap am index).lastUnspentIdx ≤ am.lastUnspentIdx := by
  rw [amMarkSpentAddress_eq]
  dsimp only
  split
  · cases hfound : (indicesDownFrom am.lastUnspentIdx).find? fun i =>
        decide (bitmaskGet heap (bitmaskOp true am.spentAddr index .set).2 i = false) with
    | none => exact UInt64.le_refl _
    | some i => exact (mem_indicesDownFrom.mp (List.mem_of_find?_eq_some hfound)).2
  · exact UInt64.le_refl _

/-- Marking an index keeps the mask over all indices. -/
theorem WalletAm.MaskReaches.amMarkSpentAddress {am : WalletAm} (h : am.MaskReaches) (heap : UInt64 → Byte)
    (index : UInt64) : (amMarkSpentAddress heap am index).MaskReaches := by
  refine ⟨h.covered.amMarkSpentAddress heap index, ?_⟩
  rw [lastAddrIndex_amMarkSpentAddress]
  exact UInt64.le_trans (lastUnspentIdx_amMarkSpentAddress_le heap am index) h.lastUnspentIdx_le

/-- A mask over all indices is read inside. -/
theorem WalletAm.Covered.bitmaskGet_congr {am : WalletAm} (h : am.Covered) (heap heap' : UInt64 → Byte) {i : UInt64}
    (hi : i ≤ am.lastAddrIndex) : bitmaskGet heap am.spentAddr i = bitmaskGet heap' am.spentAddr i := by
  rw [bitmaskGet_eq_marked heap _ i (h.div_lt hi), bitmaskGet_eq_marked heap' _ i (h.div_lt hi)]

/-- The unspent addresses are read off the mask. -/
theorem WalletAm.Covered.amUnspentAddresses_congr {am : WalletAm} (h : am.Covered) (heap heap' : UInt64 → Byte) :
    amUnspentAddresses libs.sodium heap am = amUnspentAddresses libs.sodium heap' am := by
  unfold amUnspentAddresses
  cases hindices : indicesUpTo am.firstUnspentIdx am.lastAddrIndex with
  | none => rfl
  | some indices =>
    have hsame : (indices.filter fun i => !amIsSpentAddress heap am i) =
        indices.filter fun i => !amIsSpentAddress heap' am i := by
      apply List.filter_congr
      intro i hi
      have hle := ((mem_of_indicesUpTo hindices i).mp hi).2
      rw [amIsSpentAddress, amIsSpentAddress, h.bitmaskGet_congr heap heap' hle]
    simp only [Option.map_some, hsame]

/-- Marking an index looks for unspent ones inside the mask. -/
theorem WalletAm.MaskReaches.amMarkSpentAddress_congr {am : WalletAm} (h : am.MaskReaches)
    (heap heap' : UInt64 → Byte) (index : UInt64) :
    Goshimmer.amMarkSpentAddress heap am index = Goshimmer.amMarkSpentAddress heap' am index := by
  have hcovered : ({ am with spentAddr := (bitmaskOp true am.spentAddr index .set).2 } : WalletAm).Covered := by
    have hcap := h.covered
    unfold WalletAm.Covered at hcap ⊢
    rw [cap_bitmaskOp]
    exact lt_max_of_lt_left hcap
  have hread : ∀ i ≤ am.lastAddrIndex,
      decide (bitmaskGet heap (bitmaskOp true am.spentAddr index .set).2 i = false) =
        decide (bitmaskGet heap' (bitmaskOp true am.spentAddr index .set).2 i = false) := by
    intro i hi
    rw [hcovered.bitmaskGet_congr heap heap' hi]
  have hfirst := List.find?_congr (l := indicesBelow am.firstUnspentIdx am.lastAddrIndex)
    fun i hi => hread i (UInt64.le_of_lt (mem_indicesBelow.mp hi).2)
  have hlast := List.find?_congr (l := indicesDownFrom am.lastUnspentIdx)
    fun i hi => hread i (UInt64.le_trans (mem_indicesDownFrom.mp hi).2 h.lastUnspentIdx_le)
  rw [amMarkSpentAddress_eq, amMarkSpentAddress_eq, hfirst, hlast]

/-- The marking loop of a send. -/
theorem markConsumed_congr (heap heap' : UInt64 → Byte) {w : Wallet} (h : w.addrManager.MaskReaches)
    (consumed : UnspentOutputs) : markConsumed heap w consumed = markConsumed heap' w consumed := by
  unfold markConsumed
  generalize consumed.entries = entries
  induction entries generalizing w with
  | nil => rfl
  | cons outputSent rest ih =>
    rw [List.foldl_cons, List.foldl_cons, ← h.amMarkSpentAddress_congr heap heap' outputSent.addrIndex]
    exact ih (h.amMarkSpentAddress heap outputSent.addrIndex)

/-! ## The operations -/

/-- What a refresh meets: it has an address to ask for, and the texts of a reply fit their buffers. -/
structure RefreshMeetsNoStray (env : Env) (w : Wallet) (includeSpent : Bool) : Prop where
  asks : refreshAddresses libs env w includeSpent ≠ some []
  fits : ∀ req reply, env.node (w.endpoint.request "value/unspentOutputs" req) = some reply →
    ReplyTextsFit libs reply

/-- What an operation meets. -/
def MeetsNoStray (w : Wallet) (op : Env × WalletOp) : Prop :=
  match op.2 with
  | .refresh includeSpent => RefreshMeetsNoStray libs op.1 w includeSpent
  | .balance | .sendFunds _ => RefreshMeetsNoStray libs op.1 w false
  | _ => True

variable {libs}

/-- A refresh does the same. -/
theorem Env.SameButStray.walletRefresh {env env' : Env} (h : env.SameButStray env') {w : Wallet}
    (hreaches : w.addrManager.MaskReaches) {includeSpent : Bool}
    (hmeets : RefreshMeetsNoStray libs env w includeSpent) :
    walletRefresh libs env w includeSpent = Goshimmer.walletRefresh libs env' w includeSpent := by
  have haddrs : refreshAddresses libs env w includeSpent = refreshAddresses libs env' w includeSpent := by
    rw [refreshAddresses, refreshAddresses, hreaches.covered.amUnspentAddresses_congr libs env.heap env'.heap]
  have hreply : ∀ addrs, refreshReply libs env w addrs = refreshReply libs env' w addrs := by
    intro addrs
    rw [refreshReply, refreshReply, getUnspentOutputs, getUnspentOutputs]
    cases unspentOutputsRequest libs addrs with
    | none => rfl
    | some req =>
      dsimp only
      rw [← h.node]
      cases hnode : env.node (w.endpoint.request "value/unspentOutputs" req) with
      | none => rfl
      | some reply => exact deserUnspentOutputs_congr libs env.past env'.past (hmeets.fits req reply hnode) _
  unfold Goshimmer.walletRefresh
  rw [← haddrs]
  cases hasked : refreshAddresses libs env w includeSpent with
  | none => rfl
  | some addrs =>
    cases addrs with
    | nil => exact absurd hasked hmeets.asks
    | cons first rest => simp only [hreply]

/-- A transaction is built the same. -/
theorem Env.SameButStray.buildTransaction {env env' : Env} (h : env.SameButStray env') (w : Wallet)
    (dest : SendFundsOp) (consumed : UnspentOutputs) :
    buildTransaction libs env w dest consumed = Goshimmer.buildTransaction libs env' w dest consumed := by
  simp only [Goshimmer.buildTransaction, walletSignTx, h.signHost.txEssence, h.signGranted]

/-- The end of a send is the same. -/
theorem Env.SameButStray.spendConsumed {env env' : Env} (h : env.SameButStray env') {w : Wallet}
    (hreaches : w.addrManager.MaskReaches) (dest : SendFundsOp) (consumed : UnspentOutputs) :
    spendConsumed libs env w dest consumed = Goshimmer.spendConsumed libs env' w dest consumed := by
  unfold Goshimmer.spendConsumed
  rw [← h.buildTransaction]
  cases hbuilt : Goshimmer.buildTransaction libs env w dest consumed with
  | none => rfl
  | some built =>
    obtain ⟨tx, am, dest'⟩ := built
    have ham : am.MaskReaches := by
      obtain ⟨⟨outputs, am', dest''⟩, houtputs, heq⟩ := Option.map_eq_some_iff.mp hbuilt
      obtain ⟨-, heq⟩ := Prod.mk.inj heq
      obtain ⟨rfl, -⟩ := Prod.mk.inj heq
      exact (askedNew_walletBuildOutputs libs houtputs).invariant libs WalletAm.MaskReaches hreaches
        fun am ham => ham.amGetAddress libs.sodium _
    have hmarked := markConsumed_congr env.heap env'.heap (w := { w with addrManager := am }) ham consumed
    simp only [txSignautresValid_congr libs.sodium h.validHost tx, h.base64Host.tx2Base64, h.node, hmarked]

/-- A send does the same. -/
theorem Env.SameButStray.walletSendFunds {env env' : Env} (h : env.SameButStray env') {w : Wallet}
    (hreaches : w.addrManager.MaskReaches) (hmeets : RefreshMeetsNoStray libs env w false) (dest : SendFundsOp) :
    walletSendFunds libs env w dest = Goshimmer.walletSendFunds libs env' w dest := by
  unfold Goshimmer.walletSendFunds
  rw [← h.walletRefresh hreaches hmeets]
  cases hrefresh : Goshimmer.walletRefresh libs env w false with
  | none => rfl
  | some refreshed =>
    have hkept : refreshed.2.addrManager.MaskReaches := by
      rw [addrManager_walletRefresh libs env hrefresh]
      exact hreaches
    simp only [h.spendConsumed hkept]

/-- An operation does the same. -/
theorem Env.SameButStray.walletStep {env env' : Env} (h : env.SameButStray env') {w : Wallet}
    (hreaches : w.addrManager.MaskReaches) {op : WalletOp} (hmeets : MeetsNoStray libs w (env, op)) :
    walletStep libs w (env, op) = Goshimmer.walletStep libs w (env', op) := by
  cases op with
  | refresh includeSpent => simp only [Goshimmer.walletStep, h.walletRefresh hreaches hmeets]
  | balance => simp only [Goshimmer.walletStep, walletBalance, h.walletRefresh hreaches hmeets]
  | receiveAddress => rfl
  | newReceiveAddress => rfl
  | remainderAddress => rfl
  | sendFunds dest => simp only [Goshimmer.walletStep, h.walletSendFunds hreaches hmeets]

/-- Every step keeps the mask over all indices. -/
theorem WalletAm.MaskReaches.step {w w' : Wallet} (h : w.addrManager.MaskReaches) {op : Env × WalletOp}
    {out : List Submission} (hstep : Goshimmer.walletStep libs w op = some (w', out)) : w'.addrManager.MaskReaches :=
  addrManager_invariant libs WalletAm.MaskReaches (fun _ index ham => ham.amGetAddress libs.sodium index)
    (fun heap _ index ham => ham.amMarkSpentAddress heap index) h hstep

/-! ## Runs -/

/-- The same operation in surroundings which differ in the memory alone. -/
def SameOperation (op op' : Env × WalletOp) : Prop := op.1.SameButStray op'.1 ∧ op.2 = op'.2

variable (libs)

/-- A run of a wallet whose mask reaches over all indices follows from the nodes and from which allocations
succeed: where every refresh has an address to ask for and the texts of the replies fit their buffers, the same
operations in surroundings with any other memory leave the same wallet and hand the same transactions to the
node, with the same texts. -/
theorem runAlong_ignores_stray {initial : Wallet} (hreaches : initial.addrManager.MaskReaches)
    {ops ops' : List (Env × WalletOp)} (hsame : List.Forall₂ SameOperation ops ops')
    (hmeets : MeetsAlong (walletStep libs) (MeetsNoStray libs) initial ops) :
    runAlong (walletStep libs) initial ops = runAlong (walletStep libs) initial ops' := by
  refine runAlong_congr (walletStep libs) (fun w => w.addrManager.MaskReaches) ?_ ?_ hreaches hsame hmeets
  · intro w w' op out hkept hstep
    exact hkept.step hstep
  · rintro w ⟨env, op⟩ ⟨env', _⟩ hkept hmeet ⟨hstray, rfl⟩
    exact hstray.walletStep hkept hmeet

/-- The node with the five tokens, in other memory. -/
def strayFive : Env where
  node := (fiveNode 0).node
  past := ⟨[1], [2], [3]⟩
  heap := fun _ => 255
  strayIsNull := false
  signHost := ⟨true, ⟨true, fun _ => 7⟩⟩
  signGranted := fun _ => true
  validHost := fun _ => ⟨true, ⟨true, fun _ => 8⟩⟩
  base64Host := ⟨true, ⟨true, fun _ => 9⟩⟩

/-- A payment of the five tokens, and then a new address. -/
theorem runAlong_ignores_stray_five :
    runAlong (walletStep fiveLibraries) oneAddress
        [(fiveNode 0, .sendFunds (plainRequest 5)), (fiveNode 0, .newReceiveAddress)] =
      runAlong (walletStep fiveLibraries) oneAddress
        [(strayFive, .sendFunds (plainRequest 5)), (strayFive, .newReceiveAddress)] := by
  have hstray : (fiveNode 0).SameButStray strayFive := ⟨rfl, ⟨rfl, rfl⟩, rfl, fun _ => ⟨rfl, rfl⟩, ⟨rfl, rfl⟩⟩
  have hmeets : RefreshMeetsNoStray fiveLibraries (fiveNode 0) oneAddress false := by
    refine ⟨by decide, fun req reply hreply => ?_⟩
    rw [← Option.some.inj hreply]
    exact replyTextsFit_replyDocument base58Lawful_sample (parseBody_fiveReply (Or.inl rfl))
  have hcovered : oneAddress.addrManager.Covered :=
    show oneAddress.addrManager.lastAddrIndex.toNat / 8 < oneAddress.addrManager.spentAddr.cap by decide
  exact runAlong_ignores_stray fiveLibraries ⟨hcovered, by decide⟩
    (.cons ⟨hstray, rfl⟩ (.cons ⟨hstray, rfl⟩ .nil)) ⟨hmeets, fun _ _ _ => ⟨trivial, fun _ _ _ => trivial⟩⟩

end Goshimmer
