import Goshimmer.Library.ConsumeWhole
import Goshimmer.Wallet.Submissions

/-!
# A wallet and a ledger

A ledger says which outputs every address has. A node reports a ledger when it answers each request for
addresses with what the ledger has there, or with an error, or not at all. Where the ledger stays the same
the table of the wallet never shows anything else: an entry has the outputs of its address or, before the
first answer about it, none. A send takes whole entries, so what it leaves of an address it retires is
nothing: in every run the outputs handed to the node are those of the addresses retired on the way, each
of them once.
-/

namespace Goshimmer

/-- The outputs at every address. -/
abbrev Ledger := Address → List OutputListing

/-- What a ledger has at the addresses which a request asks for. -/
def Ledger.listing (ledger : Ledger) (addrs : List AddressT) : List AddressListing :=
  addrs.map fun addr => ⟨addr.addr, ledger addr.addr⟩

/-- Every output of the ledger names the address it is at. -/
def Ledger.Placed (ledger : Ledger) : Prop := ∀ addr, ∀ o ∈ ledger addr, o.outputId.address = addr

variable (libs : Libraries)

/-- A node which answers the request of a refresh answers it with an error or with what the ledger has at
the addresses asked for. -/
def ReportsLedger (ledger : Ledger) (env : Env) (w : Wallet) (includeSpent : Bool) : Prop :=
  ∀ addrs req body, refreshAddresses libs env w includeSpent = some addrs →
    unspentOutputsRequest libs addrs = some req →
      env.node (w.endpoint.request "value/unspentOutputs" req) = some body →
        ∃ jsonObj, libs.cjson.parseBody body = some jsonObj ∧
          (deserError jsonObj = none → ListsReply libs env.past jsonObj (ledger.listing addrs))

/-- The node answers the request of a refresh with what the ledger has at the addresses asked for. -/
def AnswersLedger (ledger : Ledger) (env : Env) (w : Wallet) : Prop :=
  ∀ addrs, refreshAddresses libs env w false = some addrs →
    ∃ req body jsonObj, unspentOutputsRequest libs addrs = some req ∧
      env.node (w.endpoint.request "value/unspentOutputs" req) = some body ∧
      libs.cjson.parseBody body = some jsonObj ∧ deserError jsonObj = none ∧
      ListsReply libs env.past jsonObj (ledger.listing addrs)

variable {libs} in
/-- Such a node reports the ledger. -/
theorem AnswersLedger.reports {ledger : Ledger} {env : Env} {w : Wallet} (h : AnswersLedger libs ledger env w) :
    ReportsLedger libs ledger env w false := by
  intro addrs req body haddrs hreq hbody
  obtain ⟨req', body', jsonObj, hreq', hbody', hparse, -, hlists⟩ := h addrs haddrs
  obtain rfl := Option.some.inj (hreq'.symm.trans hreq)
  obtain rfl := Option.some.inj (hbody'.symm.trans hbody)
  exact ⟨jsonObj, hparse, fun _ => hlists⟩

/-- The condition on a step: its refresh, if it has one, meets a node which reports the ledger. -/
def StepReports (ledger : Ledger) (w : Wallet) (op : Env × WalletOp) : Prop :=
  match op.2 with
  | .refresh includeSpent => ReportsLedger libs ledger op.1 w includeSpent
  | .balance => ReportsLedger libs ledger op.1 w false
  | .sendFunds _ => ReportsLedger libs ledger op.1 w false
  | _ => True

/-- An entry of a decoded listing was listed. -/
theorem exists_mem_of_mem_listingTable {listing : List AddressListing} {elm : UnspentOutputEntry}
    (h : elm ∈ (listingTable listing).entries) : ∃ a ∈ listing, elm = a.entry := by
  have hfind := InsertionTable.find_key_of_mem h
  rw [listingTable, ← List.foldl_map, InsertionTable.find_foldl_insertNew] at hfind
  obtain ⟨a, ha, hentry⟩ := List.mem_map.mp (List.mem_of_find?_eq_some hfind)
  exact ⟨a, ha, hentry.symm⟩

/-- A reply of a node which reports a ledger has the outputs of the ledger, at addresses which were asked
for. -/
theorem ReportsLedger.mem_refreshReply {ledger : Ledger} {env : Env} {w : Wallet} {includeSpent : Bool}
    (hbase58 : libs.base58.Lawful) (h : ReportsLedger libs ledger env w includeSpent) {addrs : List AddressT}
    (haddrs : refreshAddresses libs env w includeSpent = some addrs) {unspent : UnspentOutputEntry}
    (hunspent : unspent ∈ (refreshReply libs env w addrs).2.entries) :
    unspent.addr ∈ addrs.map AddressT.addr ∧ unspent.ids = outputsTable (ledger unspent.addr) := by
  have hempty : unspent ∉ unspentOutputsInit.entries := by
    simp [unspentOutputsInit, InsertionTable.empty]
  unfold refreshReply getUnspentOutputs at hunspent
  cases hreq : unspentOutputsRequest libs addrs with
  | none =>
    rw [hreq] at hunspent
    exact absurd hunspent hempty
  | some req =>
    rw [hreq] at hunspent
    dsimp only at hunspent
    cases hbody : env.node (w.endpoint.request "value/unspentOutputs" req) with
    | none =>
      rw [hbody] at hunspent
      exact absurd hunspent hempty
    | some body =>
      rw [hbody] at hunspent
      dsimp only at hunspent
      obtain ⟨jsonObj, hparse, hreply⟩ := h addrs req body haddrs hreq hbody
      cases herror : deserError jsonObj with
      | some msg =>
        simp only [deserUnspentOutputs, hparse, herror] at hunspent
        exact absurd hunspent hempty
      | none =>
        rw [deserUnspentOutputs_of_lists libs env.past hbase58 hparse herror (hreply herror)] at hunspent
        obtain ⟨a, ha, rfl⟩ := exists_mem_of_mem_listingTable hunspent
        obtain ⟨addr, haddr, rfl⟩ := List.mem_map.mp ha
        exact ⟨List.mem_map_of_mem haddr, rfl⟩

/-! ## What the table shows -/

/-- Every entry of the table has the outputs which the ledger has at its address, or none. -/
def UnspentOutputs.Shows (t : UnspentOutputs) (ledger : Ledger) : Prop :=
  ∀ elm ∈ t.entries, elm.ids.entries = [] ∨ elm.ids = outputsTable (ledger elm.addr)

/-- Setting a spent flag keeps it. -/
theorem UnspentOutputs.Shows.setSpent {t : UnspentOutputs} {ledger : Ledger} (h : t.Shows ledger)
    (addr : Address) (spent : Bool) : (unspentOutputsSetSpent t addr spent).Shows ledger := by
  intro elm helm
  obtain ⟨old, hold, rfl⟩ := InsertionTable.mem_entries_modify.mp helm
  by_cases haddr : old.addr = addr
  · rw [if_pos haddr]
    exact h old hold
  · rw [if_neg haddr]
    exact h old hold

/-- Setting several spent flags keeps it. -/
theorem UnspentOutputs.Shows.foldl_setSpent {t : UnspentOutputs} {ledger : Ledger} (h : t.Shows ledger)
    (l : List UnspentOutputEntry) :
    (l.foldl (fun t elm => unspentOutputsSetSpent t elm.addr true) t).Shows ledger := by
  induction l generalizing t with
  | nil => exact h
  | cons elm rest ih => exact ih (h.setSpent elm.addr true)

/-- Adding an entry with the outputs of its address keeps it. -/
theorem UnspentOutputs.Shows.add {t : UnspentOutputs} {ledger : Ledger} (h : t.Shows ledger)
    {addr : Address} {ids : OutputIds} (hids : ids.entries = [] ∨ ids = outputsTable (ledger addr))
    (addrIndex : UInt64) : (unspentOutputsAdd t addr addrIndex ids).2.Shows ledger := by
  intro elm helm
  rw [unspentOutputsAdd_snd, InsertionTable.mem_entries_insertNew] at helm
  rcases helm with hold | ⟨rfl, -⟩
  · exact h elm hold
  · exact hids

/-- Applying a reply with the outputs of the ledger keeps it. -/
theorem UnspentOutputs.Shows.refreshed {t reply : UnspentOutputs} {ledger : Ledger} (h : t.Shows ledger)
    (hreply : reply.Shows ledger) : (reply.entries.foldl refreshEntry t).Shows ledger := by
  have hstep : ∀ (t : UnspentOutputs) (unspent : UnspentOutputEntry), t.Shows ledger →
      (unspent.ids.entries = [] ∨ unspent.ids = outputsTable (ledger unspent.addr)) →
        (refreshEntry t unspent).Shows ledger := by
    intro t unspent ht hids
    unfold refreshEntry
    split
    · refine UnspentOutputs.Shows.setSpent ?_ _ _
      intro elm helm
      obtain ⟨old, hold, rfl⟩ := InsertionTable.mem_entries_modify.mp helm
      by_cases haddr : old.addr = unspent.addr
      · simp only [if_pos haddr, outputIdsClone_eq]
        rwa [haddr]
      · rw [if_neg haddr]
        exact ht old hold
    · exact ht.add hids _
  have hall : ∀ unspent ∈ reply.entries,
      unspent.ids.entries = [] ∨ unspent.ids = outputsTable (ledger unspent.addr) := hreply
  generalize reply.entries = l at hall
  induction l generalizing t with
  | nil => exact h
  | cons unspent rest ih =>
    exact ih (hstep t unspent h (hall unspent List.mem_cons_self))
      fun other hother => hall other (List.mem_cons_of_mem _ hother)

variable {libs}

/-- A refresh through a node which reports the ledger keeps it. -/
theorem UnspentOutputs.Shows.walletRefresh {env : Env} {ledger : Ledger} {w w' : Wallet}
    {includeSpent synced : Bool} (h : w.unspent.Shows ledger) (hbase58 : libs.base58.Lawful)
    (hreports : ReportsLedger libs ledger env w includeSpent)
    (hrefresh : walletRefresh libs env w includeSpent = some (synced, w')) : w'.unspent.Shows ledger := by
  rcases walletRefresh_cases libs env hrefresh with rfl | ⟨addrs, haddrs, -, rfl⟩
  · exact h
  · exact h.refreshed fun unspent hunspent =>
      Or.inr (hreports.mem_refreshReply libs hbase58 haddrs hunspent).2

/-- Every step through a node which reports the ledger keeps it. -/
theorem UnspentOutputs.Shows.step {ledger : Ledger} {w w' : Wallet} {op : Env × WalletOp}
    {out : List Submission} (h : w.unspent.Shows ledger) (hbase58 : libs.base58.Lawful)
    (hreports : StepReports libs ledger w op) (hstep : walletStep libs w op = some (w', out)) :
    w'.unspent.Shows ledger := by
  obtain ⟨env, op⟩ := op
  cases stepEnd_walletStep libs hstep with
  | refreshed hrefresh => exact h.walletRefresh hbase58 hreports hrefresh
  | balanced hrefresh => exact h.walletRefresh hbase58 hreports hrefresh
  | asked => exact h
  | sent hend =>
    cases hend with
    | refused => exact h
    | insufficient _ hrefresh => exact h.walletRefresh hbase58 hreports hrefresh
    | invalid _ hrefresh =>
      have hrefreshed := h.walletRefresh hbase58 hreports hrefresh
      exact hrefreshed
    | submitted _ hrefresh =>
      have hrefreshed := h.walletRefresh hbase58 hreports hrefresh
      rw [unspent_markConsumed]
      exact UnspentOutputs.Shows.foldl_setSpent hrefreshed _

/-- What an initialised wallet shows, when its node reports the ledger. -/
theorem shows_walletInit {env : Env} {ledger : Ledger} {url : List Byte} {port : UInt16} {seed : Seed}
    {lastAddr firstUnspent lastUnspent : UInt64} {initial : Wallet} (hbase58 : libs.base58.Lawful)
    (hinit : walletInit libs env url port seed lastAddr firstUnspent lastUnspent = some initial)
    (hreports : ∀ w, walletInitLocal libs url port seed lastAddr firstUnspent lastUnspent = some w →
      ReportsLedger libs ledger env w true) : initial.unspent.Shows ledger := by
  obtain ⟨start, hlocal, hrefreshed⟩ := Option.bind_eq_some_iff.mp hinit
  obtain ⟨result, hrefresh, rfl⟩ := Option.map_eq_some_iff.mp hrefreshed
  refine UnspentOutputs.Shows.walletRefresh ?_ hbase58 (hreports start hlocal) hrefresh
  obtain ⟨indices, -, rfl⟩ := Option.map_eq_some_iff.mp hlocal
  have hloop : ∀ (l : List UInt64) (t : UnspentOutputs), t.Shows ledger →
      (l.foldl (initEntry libs seed firstUnspent) t).Shows ledger := by
    intro l
    induction l with
    | nil => exact fun t ht => ht
    | cons i rest ih =>
      intro t ht
      apply ih
      have hadded : (unspentOutputsAdd t (addressGet libs.sodium seed i) i outputIdsInit).2.Shows ledger :=
        ht.add (Or.inl rfl) i
      unfold initEntry
      dsimp only
      split
      · exact hadded.setSpent _ _
      · exact hadded
  exact hloop indices unspentOutputsInit fun elm helm => absurd helm List.not_mem_nil

/-! ## What is consumed -/

/-- The transaction ids of a decoded listing are those which were listed. -/
theorem exists_id_mem_outputsTable_iff {outputs : List OutputListing} {id : TxId} :
    (∃ elm ∈ (outputsTable outputs).entries, elm.id = id) ↔ ∃ o ∈ outputs, o.outputId.txId = id := by
  have hfind : ((outputsTable outputs).find id).isSome ↔ ∃ o ∈ outputs, o.outputId.txId = id := by
    rw [outputsTable, ← List.foldl_map, InsertionTable.find_foldl_insertNew, Option.isSome_or,
      Bool.or_eq_true, List.find?_isSome]
    simp [outputIdsInit, InsertionTable.empty, InsertionTable.find, OutputListing.entry]
  rw [← hfind, Option.isSome_iff_exists]
  constructor
  · rintro ⟨elm, helm, rfl⟩
    exact ⟨elm, InsertionTable.find_key_of_mem helm⟩
  · rintro ⟨elm, helm⟩
    exact ⟨elm, ((outputsTable outputs).find_eq_some_iff _ _).mp helm⟩

/-- The output ids which a ledger has at an address. -/
def Ledger.ids (ledger : Ledger) (addr : Address) : Set OutputId :=
  {input | input ∈ (ledger addr).map OutputListing.outputId}

/-- The output ids of a placed ledger are made of their address and their transaction id. -/
theorem Ledger.Placed.txOutputId_eq {ledger : Ledger} (hplaced : ledger.Placed) {addr : Address}
    {o : OutputListing} (ho : o ∈ ledger addr) : txOutputId addr o.outputId.txId = o.outputId := by
  conv_lhs => rw [← hplaced addr o ho]
  exact Subtype.ext (List.take_append_drop 33 o.outputId.val)

/-- The inputs from an entry which shows the ledger are the output ids which the ledger has there. -/
theorem mem_inputs_iff_of_shows {ledger : Ledger} (hplaced : ledger.Placed) {elm : UnspentOutputEntry}
    (hids : elm.ids = outputsTable (ledger elm.addr)) (input : OutputId) :
    (∃ id ∈ elm.ids.entries, input = txOutputId elm.addr id.id) ↔ input ∈ ledger.ids elm.addr := by
  rw [Ledger.ids, Set.mem_ofPred_eq, List.mem_map, hids]
  constructor
  · rintro ⟨id, hid, rfl⟩
    obtain ⟨o, ho, hsame⟩ := exists_id_mem_outputsTable_iff.mp ⟨id, hid, rfl⟩
    exact ⟨o, ho, by rw [← hsame, hplaced.txOutputId_eq ho]⟩
  · rintro ⟨o, ho, rfl⟩
    obtain ⟨id, hid, hsame⟩ := exists_id_mem_outputsTable_iff.mpr ⟨o, ho, rfl⟩
    exact ⟨id, hid, by rw [hsame, hplaced.txOutputId_eq ho]⟩

/-- A step through a node which reports the ledger consumes the outputs of the addresses it retires. -/
theorem consumesWhole_walletStep {ledger : Ledger} (hplaced : ledger.Placed) {w w' : Wallet}
    {op : Env × WalletOp} {out : List Submission} (h : w.unspent.Shows ledger)
    (hbase58 : libs.base58.Lawful) (hreports : StepReports libs ledger w op)
    (hstep : walletStep libs w op = some (w', out)) :
    ConsumesWhole spentAddresses (fun submission : Submission => submission.tx.inputs) OutputId.address
      ledger.ids w w' out := by
  obtain ⟨env, op⟩ := op
  cases stepEnd_walletStep libs hstep with
  | refreshed hrefresh => exact .of_same (spentAddresses_walletRefresh libs hrefresh)
  | balanced hrefresh => exact .of_same (spentAddresses_walletRefresh libs hrefresh)
  | asked => exact .of_same rfl
  | @sent dest outcome hend =>
    cases hend with
    | refused => exact .of_same rfl
    | insufficient _ hrefresh => exact .of_same (spentAddresses_walletRefresh libs hrefresh)
    | invalid _ hrefresh =>
      have hsame := spentAddresses_walletRefresh libs hrefresh
      exact .of_same hsame
    | @submitted synced refreshed tx am dest' txBytes ret _ hrefresh _ _ hbuilt _ =>
      have hrefreshed := h.walletRefresh hbase58 hreports hrefresh
      have hkept : spentAddresses refreshed = spentAddresses w := spentAddresses_walletRefresh libs hrefresh
      -- the flags are in the table, which a new remainder address leaves alone
      have hsame : spentAddresses { refreshed with addrManager := am } = spentAddresses w := hkept
      -- a selected entry has outputs, so it shows the ledger
      have hinput : ∀ elm ∈ (consumedOutputs refreshed dest).entries, ∀ input : OutputId,
          (∃ id ∈ elm.ids.entries, input = txOutputId elm.addr id.id) ↔ input ∈ ledger.ids elm.addr := by
        intro elm helm
        apply mem_inputs_iff_of_shows hplaced
        exact (hrefreshed elm (mem_of_mem_consumedOutputs helm)).resolve_left (mem_of_selected helm).2.2
      have hitems : ∀ txBytes' ret', [(⟨tx, txBytes', ret'⟩ : Submission)].flatMap
          (fun submission => submission.tx.inputs) = walletBuildInputs (consumedOutputs refreshed dest) := by
        intro txBytes' ret'
        rw [List.flatMap_singleton, hbuilt.inputs_eq]
      constructor
      · intro input hmem
        rw [hitems, mem_walletBuildInputs_iff] at hmem
        obtain ⟨elm, helm, id, hid, rfl⟩ := hmem
        rw [OutputId.address_txOutputId]
        exact (hinput elm helm _).mp ⟨id, hid, rfl⟩
      · intro addr hnew hold input hmem
        rw [mem_spentAddresses_markConsumed, hsame] at hnew
        obtain ⟨hkey, -⟩ := hnew.resolve_left hold
        obtain ⟨elm, helm, rfl⟩ := List.mem_map.mp hkey
        rw [hitems, mem_walletBuildInputs_iff]
        obtain ⟨id, hid, heq⟩ := (hinput elm helm input).mpr hmem
        exact ⟨elm, helm, id, hid, heq⟩

/-- While the ledger stays the same, whatever the order of the operations and whichever requests fail: no
output is handed to the node twice, and an output is handed to it exactly when the ledger has it at an
address which was retired since the initialisation. -/
theorem consumed_iff_retired {env : Env} {ledger : Ledger} {url : List Byte} {port : UInt16} {seed : Seed}
    {lastAddr firstUnspent lastUnspent : UInt64} {initial w : Wallet} {log : List Submission}
    (hbase58 : libs.base58.Lawful) (hplaced : ledger.Placed)
    (hinit : walletInit libs env url port seed lastAddr firstUnspent lastUnspent = some initial)
    (hreports : ∀ w, walletInitLocal libs url port seed lastAddr firstUnspent lastUnspent = some w →
      ReportsLedger libs ledger env w true)
    (hrun : Run (walletStep libs) (StepReports libs ledger) initial w log) :
    (log.flatMap fun submission => submission.tx.inputs).Nodup ∧
      ∀ input, input ∈ (log.flatMap fun submission => submission.tx.inputs) ↔
        unspentOutputsGetSpent w.unspent input.address = true ∧
          unspentOutputsGetSpent initial.unspent input.address = false ∧
          input ∈ (ledger input.address).map OutputListing.outputId := by
  have hconsumed : (log.flatMap fun submission => submission.tx.inputs).Nodup ∧
      ConsumedWhole spentAddresses (fun submission : Submission => submission.tx.inputs) OutputId.address
        ledger.ids initial w log :=
    Run.consumedWhole (fun w => w.unspent.Shows ledger) (shows_walletInit hbase58 hinit hreports)
      (fun hshows hmeets hstep => hshows.step hbase58 hmeets hstep)
      (fun _ hstep => spendsOnce_walletStep libs hstep)
      (fun hshows hmeets hstep => consumesWhole_walletStep hplaced hshows hbase58 hmeets hstep) hrun
  refine ⟨hconsumed.1, fun input => ?_⟩
  rw [hconsumed.2.mem_iff, ← Bool.not_eq_true]
  exact Iff.rfl

/-- A ledger with five tokens at an address of the all-zero seed. -/
def fiveLedgerAt (i : UInt64) : Ledger := fun addr =>
  if addr = zeroSeedAddress i then
    [⟨txOutputId (zeroSeedAddress i) (Bytes.zero 32), ⟨false, true, false, false, false, false, false⟩,
      [⟨5, Bytes.zero 32⟩]⟩]
  else []

/-- The one with the tokens at the first address. -/
def fiveLedger : Ledger := fiveLedgerAt 0

/-- Its output names this address. -/
theorem placed_fiveLedger : fiveLedger.Placed := by
  intro addr o ho
  by_cases haddr : addr = zeroSeedAddress 0
  · rw [fiveLedger, fiveLedgerAt, if_pos haddr, List.mem_singleton] at ho
    rw [ho, OutputId.address_txOutputId, haddr]
  · rw [fiveLedger, fiveLedgerAt, if_neg haddr] at ho
    exact absurd ho List.not_mem_nil

/-- A node with the five tokens answers a wallet which asks for their address alone with it. -/
theorem answersLedger_fiveNode_of_asked {i : UInt64} (hi : i = 0 ∨ i = 1) {w : Wallet}
    (hasked : refreshAddresses fiveLibraries (fiveNode i) w false = some [⟨i, zeroSeedAddress i⟩])
    (hrequest : (unspentOutputsRequest fiveLibraries [⟨i, zeroSeedAddress i⟩]).isSome) :
    AnswersLedger fiveLibraries (fiveLedgerAt i) (fiveNode i) w := by
  intro addrs haddrs
  obtain rfl := Option.some.inj (haddrs.symm.trans hasked)
  obtain ⟨req, hreq⟩ := Option.isSome_iff_exists.mp hrequest
  have hlisting : (fiveLedgerAt i).listing [⟨i, zeroSeedAddress i⟩] = fiveListing i := by
    simp [Ledger.listing, fiveLedgerAt, fiveListing]
  have hvalues : ∀ a ∈ fiveListing i, ∀ o ∈ a.outputs, ∀ b ∈ o.balances, 0 ≤ b.value.toInt := by
    simp [fiveListing]
  refine ⟨req, fiveReply i, _, hreq, rfl, parseBody_fiveReply hi, rfl, ?_⟩
  rw [hlisting]
  exact lists_replyDocument fiveLibraries _ base58Lawful_sample (List.cons_ne_nil _ _) hvalues

/-- So the first one answers the wallet with one address. -/
theorem answersLedger_fiveNode : AnswersLedger fiveLibraries fiveLedger (fiveNode 0) oneAddress :=
  answersLedger_fiveNode_of_asked (Or.inl rfl) refreshAddresses_oneAddress (by decide)

/-- So it reports it. -/
theorem reportsLedger_fiveNode : ReportsLedger fiveLibraries fiveLedger (fiveNode 0) oneAddress false :=
  answersLedger_fiveNode.reports

/-- A node which cannot be reached reports every ledger. -/
theorem reportsLedger_unreachable (libs : Libraries) (ledger : Ledger) (w : Wallet) (includeSpent : Bool) :
    ReportsLedger libs ledger unreachable w includeSpent := by
  intro addrs req body _ _ hbody
  exact absurd hbody.symm (Option.some_ne_none body)

/-- The payment of the five tokens consumes the output which the ledger has at the retired address. -/
theorem consumed_iff_retired_five :
    txOutputId (zeroSeedAddress 0) (Bytes.zero 32) ∈
      ((payReported 5).get payReportedFive_isSome).submitted.flatMap fun submission => submission.tx.inputs := by
  refine ((consumed_iff_retired base58Lawful_sample placed_fiveLedger walletInit_oneAddress
    (fun w _ => reportsLedger_unreachable _ _ w true)
    (Run.single (show StepReports fiveLibraries fiveLedger oneAddress
      (fiveNode 0, .sendFunds (plainRequest 5)) from reportsLedger_fiveNode)
      (walletStep_payReported payReportedFive_isSome))).2 _).mpr ⟨?_, ?_, ?_⟩
  · rw [payReported_get (Or.inr rfl)]
    decide +kernel
  · decide
  · rw [OutputId.address_txOutputId]
    simp [fiveLedger, fiveLedgerAt]

end Goshimmer
