import Goshimmer.Client.Totals
import Goshimmer.Library.TableSums
import Goshimmer.Wallet.AddressLists
import Goshimmer.Wallet.Ledger
import Goshimmer.Wallet.RefreshOverride

/-!
# The balance of a wallet

A refresh asks about the indices which read as unspent, and the balance adds up the entries whose flag
says unspent. The two records of spent addresses agree along a run, so these are the same addresses: once
the node has answered with its ledger, each of them has the outputs of the ledger and the balance is what
the ledger has there, every address counted once. What earlier replies left in the table does not matter.
-/

namespace Goshimmer

/-! ## What an address is worth -/

/-- What an output adds to the total, when it is confirmed. -/
def OutputListing.confirmedTotal (o : OutputListing) : UInt64 :=
  if o.st.confirmed then (o.balances.map fun b => b.value.toUInt64).sum else 0

/-- The total under the confirmed outputs of an address. -/
def Ledger.confirmedTotal (ledger : Ledger) (addr : Address) : UInt64 :=
  ((ledger addr).map OutputListing.confirmedTotal).sum

/-- The total of a colour under the confirmed outputs of an address. -/
def Ledger.confirmedOf (ledger : Ledger) (color : Color) (addr : Address) : UInt64 :=
  ((ledger addr).map (OutputListing.listed color)).sum

/-- No address has two outputs of one transaction, and no output has two balances of one colour. -/
structure Ledger.Distinct (ledger : Ledger) : Prop where
  txIds : ∀ addr, ((ledger addr).map fun o => o.outputId.txId).Nodup
  colors : ∀ addr, ∀ o ∈ ledger addr, (o.balances.map Balance.color).Nodup

/-- The table of an address has an entry for every output of such a ledger. -/
theorem Ledger.Distinct.entries_outputsTable {ledger : Ledger} (h : ledger.Distinct) (addr : Address) :
    (outputsTable (ledger addr)).entries = (ledger addr).map OutputListing.entry := by
  rw [Goshimmer.entries_outputsTable, firstOfKey_of_nodup _ _ _ (h.txIds addr)]

/-- The table of an output has an entry for every balance of such a ledger. -/
theorem Ledger.Distinct.entries_balancesTable {ledger : Ledger} (h : ledger.Distinct) {addr : Address}
    {o : OutputListing} (ho : o ∈ ledger addr) :
    (balancesTable o.balances).entries = o.balances.map fun b => ⟨b.color, b.value⟩ := by
  rw [Goshimmer.entries_balancesTable, firstOfKey_of_nodup _ _ _ (h.colors addr o ho)]

/-- The table of an address is worth what the ledger has there. -/
theorem Ledger.Distinct.outputIdsBalance_eq {ledger : Ledger} (h : ledger.Distinct) (addr : Address) :
    outputIdsBalance (outputsTable (ledger addr)) = ledger.confirmedTotal addr := by
  rw [outputIdsBalance, foldl_add_weight_if, zero_add, h.entries_outputsTable, List.map_map,
    Ledger.confirmedTotal]
  congr 1
  refine List.map_congr_left fun o ho => ?_
  have hsum : balanceHtSum o.entry.balances = (o.balances.map fun b => b.value.toUInt64).sum := by
    rw [balanceHtSum, foldl_add_weight, zero_add, OutputListing.entry, h.entries_balancesTable ho,
      List.map_map]
    rfl
  rw [Function.comp_apply, hsum]
  rfl

/-- And so it is for every colour. -/
theorem Ledger.Distinct.outputIdsBalanceWithColor_eq {ledger : Ledger} (h : ledger.Distinct) (color : Color)
    (addr : Address) :
    outputIdsBalanceWithColor (outputsTable (ledger addr)) color = ledger.confirmedOf color addr := by
  rw [outputIdsBalanceWithColor, foldl_add_weight_if, zero_add, h.entries_outputsTable, List.map_map,
    Ledger.confirmedOf]
  congr 1
  refine List.map_congr_left fun o ho => ?_
  have hsum : balanceHtSumWithColor o.entry.balances color = (o.balances.map (Balance.worth color)).sum := by
    rw [OutputListing.entry, balanceHtSumWithColor_balancesTable, firstOfKey_of_nodup _ _ _ (h.colors addr o ho)]
  rw [Function.comp_apply, hsum]
  rfl

/-- Only the flag decides whether an entry adds to a balance: an entry without outputs adds nothing. -/
theorem foldl_counts_eq_sum_unspent (weight : OutputIds → UInt64)
    (hempty : ∀ ids, ids.entries = [] → weight ids = 0) (t : UnspentOutputs) :
    t.entries.foldl (fun sum elm => if elm.counts then sum + weight elm.ids else sum) 0 =
      ((t.entries.filter fun elm => !elm.spent).map fun elm => weight elm.ids).sum := by
  have hweight : ∀ elm : UnspentOutputEntry,
      (if elm.counts then weight elm.ids else 0) = if elm.spent then 0 else weight elm.ids := by
    intro elm
    unfold UnspentOutputEntry.counts
    cases elm.spent with
    | true => rfl
    | false =>
      by_cases hids : elm.ids.isEmpty = true
      · simp [hids, hempty _ (List.isEmpty_iff.mp hids)]
      · simp [hids]
  rw [foldl_add_weight_if, zero_add]
  simp only [hweight]
  induction t.entries with
  | nil => rfl
  | cons elm rest ih =>
    rw [List.map_cons, List.sum_cons, ih, List.filter_cons]
    cases elm.spent with
    | true => exact zero_add _
    | false => rfl

/-! ## The cursor of the list of unspent addresses -/

/-- The manager is well kept but for its last cursor, which the list of unspent addresses does not
read. -/
def WalletAm.FrontKept (am : WalletAm) : Prop := { am with lastUnspentIdx := 0 }.WellKept

/-- The last cursor may be anywhere. -/
theorem WalletAm.WellKept.frontKept {am : WalletAm} (h : am.WellKept) : am.FrontKept :=
  ⟨h.covered, h.inOrder, UInt64.zero_le, h.before⟩

/-- Asking for an address keeps it. -/
theorem WalletAm.FrontKept.amGetAddress {am : WalletAm} (h : am.FrontKept) (sodium : Sodium)
    (index : UInt64) : (amGetAddress sodium am index).1.FrontKept := by
  have hkept := (WalletAm.WellKept.amGetAddress sodium h index).frontKept
  rw [WalletAm.FrontKept, amGetAddress_eq] at hkept ⊢
  exact hkept

/-- Marking an index keeps it. -/
theorem WalletAm.FrontKept.amMarkSpentAddress {am : WalletAm} (h : am.FrontKept) (heap : UInt64 → Byte)
    (index : UInt64) : (amMarkSpentAddress heap am index).FrontKept := by
  have hkept := (WalletAm.WellKept.amMarkSpentAddress h heap index).frontKept
  rw [WalletAm.FrontKept, amMarkSpentAddress_eq] at hkept ⊢
  exact hkept

variable {libs : Libraries}

/-- Every step keeps it. -/
theorem WalletAm.FrontKept.step {w w' : Wallet} (h : w.addrManager.FrontKept) {op : Env × WalletOp}
    {out : List Submission} (hstep : walletStep libs w op = some (w', out)) : w'.addrManager.FrontKept :=
  addrManager_invariant libs WalletAm.FrontKept (fun _ index ham => ham.amGetAddress libs.sodium index)
    (fun heap _ index ham => ham.amMarkSpentAddress heap index) h hstep

/-- It holds of an initialised wallet whose mask reaches over all indices. -/
theorem frontKept_walletInit {env : Env} {url : List Byte} {port : UInt16} {seed : Seed}
    {lastAddr firstUnspent lastUnspent : UInt64} {initial : Wallet} (hcursors : firstUnspent ≤ lastAddr)
    (hmask : lastAddr.toNat / 8 < max 1 ((firstUnspent.toNat + 7) / 8))
    (hinit : walletInit libs env url port seed lastAddr firstUnspent lastUnspent = some initial) :
    initial.addrManager.FrontKept := by
  have ham := addrManager_walletInit libs hinit
  rw [ham]
  refine ⟨?_, hcursors, UInt64.zero_le, fun i hi => ?_⟩
  · rw [← cap_initMask] at hmask
    exact hmask
  · have hmarked := Bitmask.marked_setAll bitmaskNew (indicesBelow 0 firstUnspent) i
    rw [decide_eq_true (mem_indicesBelow.mpr ⟨UInt64.zero_le, hi⟩), Bool.or_true] at hmarked
    exact hmarked

/-! ## A refresh through a node which answers -/

/-- A node which answers with its ledger answers only about addresses it was asked for. -/
theorem AnswersLedger.asked {ledger : Ledger} {env : Env} {w : Wallet} (hbase58 : libs.base58.Lawful)
    (h : AnswersLedger libs ledger env w) : AnswersAsked libs env w false :=
  fun _ haddrs _ hunspent => (h.reports.mem_refreshReply libs hbase58 haddrs hunspent).1

/-- Its reply is the table of what the ledger has at the addresses asked for. -/
theorem AnswersLedger.refreshReply_eq {ledger : Ledger} {env : Env} {w : Wallet} (hbase58 : libs.base58.Lawful)
    (h : AnswersLedger libs ledger env w) {addrs : List AddressT}
    (haddrs : refreshAddresses libs env w false = some addrs) :
    refreshReply libs env w addrs = (0, listingTable (ledger.listing addrs)) := by
  obtain ⟨req, body, jsonObj, hreq, hbody, hparse, herror, hlists⟩ := h addrs haddrs
  rw [refreshReply, getUnspentOutputs, hreq]
  dsimp only
  rw [hbody]
  exact deserUnspentOutputs_of_lists libs env.past hbase58 hparse herror hlists

/-- The refresh overrides the table of the wallet by this reply. -/
theorem AnswersLedger.walletRefresh_eq {ledger : Ledger} {env : Env} {w : Wallet}
    (hbase58 : libs.base58.Lawful) (h : AnswersLedger libs ledger env w) {addrs : List AddressT}
    (haddrs : refreshAddresses libs env w false = some addrs) (hnonempty : addrs ≠ []) :
    ∃ t, walletRefresh libs env w false = some (true, { w with unspent := t }) ∧
      OverriddenBy w.unspent (listingTable (ledger.listing addrs)) t := by
  refine ⟨_, ?_, overriddenBy_foldl_refreshEntry w.unspent (listingTable (ledger.listing addrs))⟩
  have hreply := h.refreshReply_eq hbase58 haddrs
  obtain ⟨first, rest, rfl⟩ := List.exists_cons_of_ne_nil hnonempty
  rw [walletRefresh, haddrs]
  dsimp only
  rw [hreply]
  rfl

/-- The table of a listing has the outputs of the ledger at every address asked for. -/
theorem find_listingTable_listing {ledger : Ledger} {addrs : List AddressT} {addr : Address}
    (haddr : addr ∈ addrs.map AddressT.addr) :
    ∃ elm, unspentOutputsFind (listingTable (ledger.listing addrs)) addr = some elm ∧
      elm.ids = outputsTable (ledger addr) := by
  obtain ⟨asked, hasked, rfl⟩ := List.mem_map.mp haddr
  have hlisted : (unspentOutputsFind (listingTable (ledger.listing addrs)) asked.addr).isSome := by
    rw [unspentOutputsFind, listingTable, ← List.foldl_map, InsertionTable.find_foldl_insertNew,
      Option.isSome_or, Bool.or_eq_true, List.find?_isSome]
    refine Or.inr ⟨_, List.mem_map_of_mem (List.mem_map_of_mem hasked), ?_⟩
    exact decide_eq_true rfl
  obtain ⟨elm, helm⟩ := Option.isSome_iff_exists.mp hlisted
  obtain ⟨hmem, hkey⟩ := (InsertionTable.find_eq_some_iff _ _ _).mp helm
  obtain ⟨a, ha, rfl⟩ := exists_mem_of_mem_listingTable hmem
  obtain ⟨other, -, rfl⟩ := List.mem_map.mp ha
  have hsame : other.addr = asked.addr := hkey
  exact ⟨_, helm, by rw [← hsame]; rfl⟩

/-- What a refresh leaves when the node answers with its ledger: every index which is left unspent has the
outputs of the ledger, and nothing else counts. -/
structure RefreshedFrom (libs : Libraries) (ledger : Ledger) (seed : Seed) (indices : List UInt64)
    (t : UnspentOutputs) : Prop where
  placed : ∀ elm ∈ t.entries, elm.spent = false → ∃ i ∈ indices, elm.addr = addressGet libs.sodium seed i
  shown : ∀ i ∈ indices, ∃ elm ∈ t.entries, elm.spent = false ∧ elm.addr = addressGet libs.sodium seed i ∧
    elm.ids = outputsTable (ledger (addressGet libs.sodium seed i))

/-- An entry whose flag says unspent has the outputs of the ledger at its address. -/
theorem RefreshedFrom.ids_eq {ledger : Ledger} {seed : Seed} {indices : List UInt64} {t : UnspentOutputs}
    (h : RefreshedFrom libs ledger seed indices t) {elm : UnspentOutputEntry} (helm : elm ∈ t.entries)
    (hunspent : elm.spent = false) : elm.ids = outputsTable (ledger elm.addr) := by
  obtain ⟨i, hi, haddr⟩ := h.placed elm helm hunspent
  obtain ⟨other, hother, -, hsame, hids⟩ := h.shown i hi
  obtain rfl : elm = other := List.inj_on_of_nodup_map t.nodup helm hother (haddr.trans hsame.symm)
  rw [hids, hsame]

/-- The sum over the entries which count is the sum over these indices. -/
theorem RefreshedFrom.sum_eq {ledger : Ledger} {seed : Seed} {indices : List UInt64} {t : UnspentOutputs}
    (h : RefreshedFrom libs ledger seed indices t)
    (hdistinct : Function.Injective (addressGet libs.sodium seed)) (hnodup : indices.Nodup)
    (weight : OutputIds → UInt64) :
    ((t.entries.filter fun elm => !elm.spent).map fun elm => weight elm.ids).sum =
      (indices.map fun i => weight (outputsTable (ledger (addressGet libs.sodium seed i)))).sum := by
  have hvalue : ∀ elm ∈ t.entries, (!elm.spent) = true →
      weight elm.ids = weight (outputsTable (ledger elm.addr)) := by
    intro elm helm hunspent
    rw [h.ids_eq helm (by simpa using hunspent)]
  have hkeys : ∀ addr, addr ∈ indices.map (addressGet libs.sodium seed) ↔
      ∃ elm ∈ t.entries, (!elm.spent) = true ∧ elm.addr = addr := by
    intro addr
    rw [List.mem_map]
    constructor
    · rintro ⟨i, hi, rfl⟩
      obtain ⟨elm, helm, hunspent, haddr, -⟩ := h.shown i hi
      exact ⟨elm, helm, by rw [hunspent]; rfl, haddr⟩
    · rintro ⟨elm, helm, hunspent, rfl⟩
      obtain ⟨i, hi, haddr⟩ := h.placed elm helm (by simpa using hunspent)
      exact ⟨i, hi, haddr.symm⟩
  rw [t.sum_filter_eq_sum_keys _ (fun addr => weight (outputsTable (ledger addr))) hvalue
    (hnodup.map hdistinct) hkeys, List.map_map]
  rfl

/-- The balance of a colour is what the ledger has at these indices. -/
theorem RefreshedFrom.balanceWithColor_eq {ledger : Ledger} {seed : Seed} {indices : List UInt64}
    {t : UnspentOutputs} (h : RefreshedFrom libs ledger seed indices t)
    (hdistinct : Function.Injective (addressGet libs.sodium seed)) (hnodup : indices.Nodup)
    (hledger : ledger.Distinct) (color : Color) :
    unspentOutputsBalanceWithColor t color =
      (indices.map fun i => ledger.confirmedOf color (addressGet libs.sodium seed i)).sum := by
  have hempty : ∀ ids : OutputIds, ids.entries = [] → outputIdsBalanceWithColor ids color = 0 := by
    intro ids hids
    rw [outputIdsBalanceWithColor, hids]
    rfl
  rw [unspentOutputsBalanceWithColor,
    foldl_counts_eq_sum_unspent (fun ids => outputIdsBalanceWithColor ids color) hempty,
    h.sum_eq hdistinct hnodup fun ids => outputIdsBalanceWithColor ids color]
  simp only [hledger.outputIdsBalanceWithColor_eq]

/-- A refresh of a wallet whose records are in step leaves it so, when some index is left unspent. -/
theorem Wallet.RecordsInStep.refreshedFrom {seed : Seed} {ledger : Ledger} {env : Env} {w : Wallet}
    (h : w.RecordsInStep libs seed) (hkept : w.addrManager.FrontKept) (hbase58 : libs.base58.Lawful)
    (hanswers : AnswersLedger libs ledger env w) {i : UInt64} (hi : w.addrManager.Unspent i)
    (hlast : w.addrManager.lastAddrIndex.toNat + 1 < 2 ^ 64) :
    ∃ indices w', walletRefresh libs env w false = some (true, w') ∧ indices.Nodup ∧
      (∀ i, i ∈ indices ↔ w.addrManager.Unspent i) ∧ RefreshedFrom libs ledger seed indices w'.unspent := by
  obtain ⟨visited, hvisited⟩ := exists_indicesUpTo 0 hlast
  have haddrs : refreshAddresses libs env w false =
      some (amAddressList libs.sodium w.addrManager (visited.filter fun i => !w.addrManager.spentAddr.marked i)) :=
    WalletAm.WellKept.amUnspentAddresses libs.sodium hkept hvisited env.heap
  generalize hindices : (visited.filter fun i => !w.addrManager.spentAddr.marked i) = indices at haddrs
  have hmem : ∀ i, i ∈ indices ↔ w.addrManager.Unspent i := by
    intro i
    have hcovered : w.addrManager.Covered := hkept.covered
    rw [← hindices, List.mem_filter, mem_of_indicesUpTo hvisited, hcovered.unspent_iff]
    simp
  have hnodup : indices.Nodup := by
    rw [← hindices]
    exact ((pairwise_lt_of_indicesUpTo hvisited).imp fun hless => UInt64.ne_of_lt hless).filter _
  have hnonempty : amAddressList libs.sodium w.addrManager indices ≠ [] := by
    rw [amAddressList, ne_eq, List.map_eq_nil_iff]
    exact List.ne_nil_of_mem ((hmem i).mpr hi)
  obtain ⟨t, hrefresh, hoverridden⟩ := hanswers.walletRefresh_eq hbase58 haddrs hnonempty
  have hrefreshed := h.refresh (hanswers.asked hbase58) hrefresh
  refine ⟨indices, _, hrefresh, hnodup, hmem, ?_, ?_⟩
  · intro elm helm hunspent
    obtain ⟨j, hj, haddr⟩ := hrefreshed.derived elm helm
    have hflag := hrefreshed.agree j
    rw [← haddr, unspentOutputsGetSpent, unspentOutputsFind, InsertionTable.find_key_of_mem helm] at hflag
    have hcovered : w.addrManager.Covered := hkept.covered
    exact ⟨j, (hmem j).mpr ((hcovered.unspent_iff j).mpr ⟨hj, hflag.symm.trans hunspent⟩), haddr⟩
  · intro j hj
    have hasked : addressGet libs.sodium seed j ∈
        (amAddressList libs.sodium w.addrManager indices).map AddressT.addr := by
      rw [amAddressList, List.map_map, ← h.seed_eq]
      exact List.mem_map_of_mem hj
    obtain ⟨listed, hlisted, hids⟩ := @find_listingTable_listing ledger _ _ hasked
    obtain ⟨elm, helm, hsame⟩ := hoverridden.replaced _ _ hlisted
    obtain ⟨hmemElm, haddr⟩ := (InsertionTable.find_eq_some_iff _ _ _).mp helm
    have hflag := hrefreshed.agree j
    rw [unspentOutputsGetSpent, helm] at hflag
    have hcovered : w.addrManager.Covered := hkept.covered
    have hclear := ((hcovered.unspent_iff j).mp ((hmem j).mp hj)).2
    exact ⟨elm, hmemElm, hflag.trans hclear, haddr, hsame.trans hids⟩

/-- Both hold in every state of a run from such a wallet whose nodes answer only about addresses they were
asked for and whose sends select entries which sit under the addresses of their indices. -/
theorem inStep_and_frontKept_of_run {env : Env} {url : List Byte} {port : UInt16} {seed : Seed}
    {lastAddr firstUnspent lastUnspent : UInt64} {initial w : Wallet} {log : List Submission}
    (hdistinct : Function.Injective (addressGet libs.sodium seed)) (hcursors : firstUnspent ≤ lastAddr)
    (hmask : lastAddr.toNat / 8 < max 1 ((firstUnspent.toNat + 7) / 8))
    (hinit : walletInit libs env url port seed lastAddr firstUnspent lastUnspent = some initial)
    (hasked : ∀ w, walletInitLocal libs url port seed lastAddr firstUnspent lastUnspent = some w →
      AnswersAsked libs env w true)
    (hrun : Run (walletStep libs) (StepBound libs) initial w log) :
    w.RecordsInStep libs seed ∧ w.addrManager.FrontKept := by
  induction hrun with
  | start =>
    exact ⟨(recordsInStep_walletInit libs hdistinct hcursors hinit hasked).1,
      frontKept_walletInit hcursors hmask hinit⟩
  | next _ hmeets hstep ih => exact ⟨ih.1.step hdistinct hmeets hstep, ih.2.step hstep⟩

/-- Whatever happened since the initialisation, in any order and whatever earlier replies left in the
table: once the node answers with its ledger, the balance is what the ledger has at the addresses of the
indices which are left unspent, and so it is for every colour. -/
theorem walletBalance_eq_ledger {ledger : Ledger} {env env' : Env} {url : List Byte} {port : UInt16}
    {seed : Seed} {lastAddr firstUnspent lastUnspent : UInt64} {initial w : Wallet} {log : List Submission}
    (hbase58 : libs.base58.Lawful) (hdistinct : Function.Injective (addressGet libs.sodium seed))
    (hcursors : firstUnspent ≤ lastAddr)
    (hmask : lastAddr.toNat / 8 < max 1 ((firstUnspent.toNat + 7) / 8))
    (hinit : walletInit libs env url port seed lastAddr firstUnspent lastUnspent = some initial)
    (hasked : ∀ w, walletInitLocal libs url port seed lastAddr firstUnspent lastUnspent = some w →
      AnswersAsked libs env w true)
    (hrun : Run (walletStep libs) (StepBound libs) initial w log) (hledger : ledger.Distinct)
    (hanswers : AnswersLedger libs ledger env' w) {i : UInt64} (hi : w.addrManager.Unspent i)
    (hlast : w.addrManager.lastAddrIndex.toNat + 1 < 2 ^ 64) :
    ∃ indices : List UInt64, indices.Nodup ∧ (∀ i, i ∈ indices ↔ w.addrManager.Unspent i) ∧
      ∃ w', walletBalance libs env' w =
          some ((indices.map fun i => ledger.confirmedTotal (addressGet libs.sodium seed i)).sum, w') ∧
        ∀ color, unspentOutputsBalanceWithColor w'.unspent color =
          (indices.map fun i => ledger.confirmedOf color (addressGet libs.sodium seed i)).sum := by
  obtain ⟨hinStep, hkept⟩ := inStep_and_frontKept_of_run hdistinct hcursors hmask hinit hasked hrun
  obtain ⟨indices, w', hrefresh, hnodup, hmem, hrefreshed⟩ :=
    hinStep.refreshedFrom hkept hbase58 hanswers hi hlast
  refine ⟨indices, hnodup, hmem, w', ?_, fun color => ?_⟩
  · have htotal : unspentOutputsBalance w'.unspent =
        (indices.map fun i => ledger.confirmedTotal (addressGet libs.sodium seed i)).sum := by
      have hempty : ∀ ids : OutputIds, ids.entries = [] → outputIdsBalance ids = 0 := by
        intro ids hids
        rw [outputIdsBalance, hids]
        rfl
      rw [unspentOutputsBalance, foldl_counts_eq_sum_unspent outputIdsBalance hempty,
        hrefreshed.sum_eq hdistinct hnodup]
      simp only [hledger.outputIdsBalance_eq]
    rw [walletBalance, hrefresh, ← htotal]
    rfl
  · exact hrefreshed.balanceWithColor_eq hdistinct hnodup hledger color

/-- The sample ledgers repeat nothing. -/
theorem distinct_fiveLedgerAt (index : UInt64) : (fiveLedgerAt index).Distinct := by
  constructor
  · intro addr
    unfold fiveLedgerAt
    split
    · exact List.nodup_singleton _
    · exact List.nodup_nil
  · intro addr o ho
    unfold fiveLedgerAt at ho
    split at ho
    · rw [List.mem_singleton.mp ho]
      exact List.nodup_singleton _
    · exact absurd ho List.not_mem_nil

/-- The address manager after a payment of three of the five tokens: the first index is spent, and the change
sits at the second one. -/
theorem addrManager_payThree :
    ((payReported 3).get payReportedThree_isSome).wallet.addrManager = ⟨Bytes.zero 32, 1, ⟨[1]⟩, 0, 1⟩ := by
  rw [payReported_get (Or.inl rfl)]
  decide +kernel

/-- Only the second index is left then. -/
theorem unspent_payThree_iff (i : UInt64) :
    ((payReported 3).get payReportedThree_isSome).wallet.addrManager.Unspent i ↔ i = 1 := by
  have hcovered : (⟨Bytes.zero 32, 1, ⟨[1]⟩, 0, 1⟩ : WalletAm).Covered := show 1 / 8 < 1 by decide
  have hmarked : (⟨Bytes.zero 32, 1, ⟨[1]⟩, 0, 1⟩ : WalletAm).spentAddr.marked 0 = true ∧
      (⟨Bytes.zero 32, 1, ⟨[1]⟩, 0, 1⟩ : WalletAm).spentAddr.marked 1 = false := by decide
  rw [addrManager_payThree, hcovered.unspent_iff]
  constructor
  · intro ⟨hle, hclear⟩
    have hcases : i = 0 ∨ i = 1 := by
      rw [UInt64.le_iff_toNat_le] at hle
      rw [← UInt64.toNat_inj, ← UInt64.toNat_inj]
      have hone : (1 : UInt64).toNat = 1 := rfl
      have hzero : (0 : UInt64).toNat = 0 := rfl
      dsimp only at hle
      omega
    rcases hcases with rfl | rfl
    · exact Bool.noConfusion (hmarked.1.symm.trans hclear)
    · rfl
  · rintro rfl
    exact ⟨UInt64.le_refl _, hmarked.2⟩

/-- Three of the five tokens at the first address are paid. Then the node has five tokens at the second one,
and this is the balance. -/
theorem walletBalance_eq_ledger_three :
    ∃ w', walletBalance fiveLibraries (fiveNode 1) ((payReported 3).get payReportedThree_isSome).wallet =
      some (5, w') := by
  have hasked : refreshAddresses fiveLibraries (fiveNode 1)
      ((payReported 3).get payReportedThree_isSome).wallet false = some [⟨1, zeroSeedAddress 1⟩] := by
    rw [refreshAddresses, addrManager_payThree]
    decide
  have hlast : ((payReported 3).get payReportedThree_isSome).wallet.addrManager.lastAddrIndex = 1 := by
    rw [addrManager_payThree]
  obtain ⟨indices, hnodup, hmem, w', hbalance, -⟩ := walletBalance_eq_ledger base58Lawful_sample
    (addressGet_transparentSodium_injective _) (by decide) (by decide) walletInit_oneAddress
    (fun w _ => answersAsked_unreachable _ w true)
    (Run.single (stepBound_oneAddress 3) (walletStep_payReported payReportedThree_isSome)) (distinct_fiveLedgerAt 1)
    (answersLedger_fiveNode_of_asked (Or.inr rfl) hasked (by decide)) ((unspent_payThree_iff 1).mpr rfl)
    (by rw [hlast]; decide)
  have hindices : indices = [1] := by
    apply List.perm_singleton.mp
    rw [List.perm_ext_iff_of_nodup hnodup (List.nodup_singleton 1)]
    intro i
    rw [hmem, unspent_payThree_iff, List.mem_singleton]
  have htotal : (fiveLedgerAt 1).confirmedTotal (zeroSeedAddress 1) = 5 := by
    rw [Ledger.confirmedTotal, fiveLedgerAt, if_pos rfl]
    rfl
  rw [hindices, List.map_singleton, List.sum_singleton] at hbalance
  exact ⟨w', by rw [hbalance, ← htotal]; rfl⟩

end Goshimmer
