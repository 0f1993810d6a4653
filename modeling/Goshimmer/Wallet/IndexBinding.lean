import Goshimmer.Wallet.Cursors
import Goshimmer.Wallet.Runs

/-!
# Entries and the indices of their addresses

The wallet signs for an entry with the key of the entry's index, so an entry should sit under the
address of its index. Initialisation sets the table up this way and every operation keeps the
entries it finds. Only a refresh adds entries, and it gives each of them index 0. The binding of
addresses to indices therefore survives every run in which the replies list no address that is
missing from the table; a fresh address is such an address, because handing it out adds no entry.
-/

namespace Goshimmer

/-! ## Tables -/

/-- Every entry sits under the address of its index. -/
def UnspentOutputs.BoundBy (t : UnspentOutputs) (derive : UInt64 → Address) : Prop :=
  ∀ elm ∈ t.entries, elm.addr = derive elm.addrIndex

/-- Every entry has an address and an index which belong together. -/
def UnspentOutputs.Each (t : UnspentOutputs) (belong : Address → UInt64 → Prop) : Prop :=
  ∀ elm ∈ t.entries, belong elm.addr elm.addrIndex

/-- A table without entries has every such property. -/
theorem each_unspentOutputsInit (belong : Address → UInt64 → Prop) :
    UnspentOutputs.Each unspentOutputsInit belong := by
  simp [UnspentOutputs.Each, unspentOutputsInit, InsertionTable.empty]

/-- The binding is such a property. -/
theorem UnspentOutputs.boundBy_iff {t : UnspentOutputs} {derive : UInt64 → Address} :
    t.BoundBy derive ↔ t.Each fun addr addrIndex => addr = derive addrIndex := Iff.rfl

/-- Changing an entry without touching its address and index keeps such a property. -/
theorem UnspentOutputs.Each.modify {t : UnspentOutputs} {belong : Address → UInt64 → Prop}
    (h : t.Each belong) (addr : Address) (f : UnspentOutputEntry → UnspentOutputEntry)
    (hf : ∀ elm, (f elm).addr = elm.addr) (hindex : ∀ elm, (f elm).addrIndex = elm.addrIndex) :
    UnspentOutputs.Each (t.modify addr f hf) belong := by
  intro elm helm
  obtain ⟨old, hold, rfl⟩ := InsertionTable.mem_entries_modify.mp helm
  by_cases haddr : old.addr = addr
  · rw [if_pos haddr, hf, hindex]
    exact h old hold
  · rw [if_neg haddr]
    exact h old hold

/-- Adding an entry keeps it, when the new address and index belong together. -/
theorem UnspentOutputs.Each.add {t : UnspentOutputs} {belong : Address → UInt64 → Prop}
    (h : t.Each belong) {addr : Address} {addrIndex : UInt64}
    (hnew : unspentOutputsFind t addr = none → belong addr addrIndex) (ids : OutputIds) :
    (unspentOutputsAdd t addr addrIndex ids).2.Each belong := by
  intro elm helm
  rw [unspentOutputsAdd_snd, InsertionTable.mem_entries_insertNew] at helm
  rcases helm with hold | ⟨rfl, hnone⟩
  · exact h elm hold
  · exact hnew hnone

/-- Setting a spent flag keeps it. -/
theorem UnspentOutputs.Each.setSpent {t : UnspentOutputs} {belong : Address → UInt64 → Prop}
    (h : t.Each belong) (addr : Address) (spent : Bool) :
    (unspentOutputsSetSpent t addr spent).Each belong := h.modify addr _ _ fun _ => rfl

/-- Replacing the outputs of an address keeps it. -/
theorem UnspentOutputs.Each.update {t : UnspentOutputs} {belong : Address → UInt64 → Prop}
    (h : t.Each belong) (addr : Address) (ids : OutputIds) :
    (unspentOutputsUpdate t addr ids).Each belong := h.modify addr _ _ fun _ => rfl

/-- Marking addresses keeps it. -/
theorem UnspentOutputs.Each.foldl_setSpent {belong : Address → UInt64 → Prop}
    (l : List UnspentOutputEntry) {t : UnspentOutputs} (h : t.Each belong) :
    (l.foldl (fun t elm => unspentOutputsSetSpent t elm.addr true) t).Each belong := by
  induction l generalizing t with
  | nil => exact h
  | cons elm rest ih => exact ih (h.setSpent elm.addr true)

/-! ## Refreshing -/

/-- An address of a reply can be placed: it has an entry, or it is the address of the index which the
decoder gave it. -/
def CanBePlaced (derive : UInt64 → Address) (t : UnspentOutputs) (unspent : UnspentOutputEntry) : Prop :=
  (unspentOutputsFind t unspent.addr).isSome ∨ unspent.addr = derive unspent.addrIndex

/-- Applying an address of a reply keeps a property of all entries, when a new address belongs to the
index which the decoder gave it. -/
theorem each_refreshEntry {belong : Address → UInt64 → Prop} {t : UnspentOutputs}
    (h : t.Each belong) {unspent : UnspentOutputEntry}
    (hnew : unspentOutputsFind t unspent.addr = none → belong unspent.addr unspent.addrIndex) :
    (refreshEntry t unspent).Each belong := by
  unfold refreshEntry
  cases hfind : unspentOutputsFind t unspent.addr with
  | some elm => exact (h.update _ _).setSpent _ _
  | none => exact h.add hnew _

/-- A refresh removes no entry. -/
theorem isSome_find_refreshEntry {t : UnspentOutputs} {addr : Address}
    (h : (unspentOutputsFind t addr).isSome) (unspent : UnspentOutputEntry) :
    (unspentOutputsFind (refreshEntry t unspent) addr).isSome := by
  unfold refreshEntry
  unfold unspentOutputsFind at h ⊢
  cases hfind : t.find unspent.addr with
  | some elm =>
    dsimp only
    rw [unspentOutputsSetSpent, InsertionTable.find_modify, unspentOutputsUpdate,
      InsertionTable.find_modify]
    split <;> simp [h]
  | none =>
    dsimp only
    rw [unspentOutputsAdd_snd, InsertionTable.find_insertNew]
    obtain ⟨elm, helm⟩ := Option.isSome_iff_exists.mp h
    rw [helm, Option.some_or, Option.isSome_some]

/-- Applying a whole reply removes no entry. -/
theorem isSome_find_foldl_refreshEntry (l : List UnspentOutputEntry) {t : UnspentOutputs} {addr : Address}
    (h : (unspentOutputsFind t addr).isSome) : (unspentOutputsFind (l.foldl refreshEntry t) addr).isSome := by
  induction l generalizing t with
  | nil => exact h
  | cons unspent rest ih => exact ih (isSome_find_refreshEntry h unspent)

/-- Applying a whole reply keeps such a property. -/
theorem each_foldl_refreshEntry {belong : Address → UInt64 → Prop}
    (l : List UnspentOutputEntry) {t : UnspentOutputs} (h : t.Each belong)
    (hnew : ∀ unspent ∈ l, unspentOutputsFind t unspent.addr = none →
      belong unspent.addr unspent.addrIndex) :
    (l.foldl refreshEntry t).Each belong := by
  induction l generalizing t with
  | nil => exact h
  | cons unspent rest ih =>
    apply ih (each_refreshEntry h (hnew unspent List.mem_cons_self))
    intro other hother hnone
    refine hnew other (List.mem_cons_of_mem _ hother) (Option.not_isSome_iff_eq_none.mp fun hsome => ?_)
    have hkept := isSome_find_refreshEntry hsome unspent
    simp [hnone] at hkept

/-- Applying a reply whose addresses can all be placed keeps the binding. -/
theorem boundBy_foldl_refreshEntry {derive : UInt64 → Address}
    (l : List UnspentOutputEntry) {t : UnspentOutputs} (h : t.BoundBy derive)
    (hplaced : ∀ unspent ∈ l, CanBePlaced derive t unspent) :
    (l.foldl refreshEntry t).BoundBy derive := by
  refine UnspentOutputs.boundBy_iff.mpr (each_foldl_refreshEntry l h fun unspent hunspent hnone => ?_)
  exact (hplaced unspent hunspent).resolve_left (by simp [hnone])

variable (libs : Libraries)

/-- A refresh keeps a property of all entries, when it holds of each new address with index 0. -/
theorem each_walletRefresh {belong : Address → UInt64 → Prop} {env : Env} {w w' : Wallet}
    (h : w.unspent.Each belong) {includeSpent synced : Bool}
    (hnew : ∀ addrs, refreshAddresses libs env w includeSpent = some addrs →
      ∀ unspent ∈ (refreshReply libs env w addrs).2.entries,
        unspentOutputsFind w.unspent unspent.addr = none → belong unspent.addr 0)
    (hrefresh : walletRefresh libs env w includeSpent = some (synced, w')) : w'.unspent.Each belong := by
  rcases walletRefresh_cases libs env hrefresh with rfl | ⟨addrs, haddrs, -, rfl⟩
  · exact h
  · apply each_foldl_refreshEntry _ h
    intro unspent hunspent hnone
    have hinit : UnspentOutputs.Unplaced unspentOutputsInit := by
      simp [UnspentOutputs.Unplaced, unspentOutputsInit, InsertionTable.empty]
    rw [(unplaced_getUnspentOutputs libs env.past env.node w.endpoint addrs hinit unspent hunspent).1]
    exact hnew addrs haddrs unspent hunspent hnone

/-- Every entry of a wallet sits under the address of its index. -/
def Wallet.Bound (w : Wallet) : Prop :=
  w.unspent.BoundBy (addressGet libs.sodium w.addrManager.seed)

/-- The reply to a refresh lists only addresses which have an entry, or the address of index 0. -/
def RepliesKnown (env : Env) (w : Wallet) (includeSpent : Bool) : Prop :=
  ∀ addrs, refreshAddresses libs env w includeSpent = some addrs →
    ∀ unspent ∈ (refreshReply libs env w addrs).2.entries,
      (unspentOutputsFind w.unspent unspent.addr).isSome ∨
        unspent.addr = addressGet libs.sodium w.addrManager.seed 0

/-- A refresh whose reply lists known addresses keeps the binding. -/
theorem Wallet.Bound.refresh {env : Env} {w w' : Wallet} (h : w.Bound libs) {includeSpent synced : Bool}
    (hknown : RepliesKnown libs env w includeSpent)
    (hrefresh : walletRefresh libs env w includeSpent = some (synced, w')) : w'.Bound libs := by
  rcases walletRefresh_cases libs env hrefresh with rfl | ⟨addrs, haddrs, -, rfl⟩
  · exact h
  · apply boundBy_foldl_refreshEntry _ h
    intro unspent hunspent
    rcases hknown addrs haddrs unspent hunspent with hsome | haddr
    · exact Or.inl hsome
    · have hinit : UnspentOutputs.Unplaced unspentOutputsInit := by
        simp [UnspentOutputs.Unplaced, unspentOutputsInit, InsertionTable.empty]
      have hindex := (unplaced_getUnspentOutputs libs env.past env.node w.endpoint addrs hinit
        unspent hunspent).1
      exact Or.inr (by rw [hindex, haddr])

/-- Such a refresh keeps the seed as well. -/
theorem Wallet.Bound.refreshed {env : Env} {w w' : Wallet} (h : w.Bound libs)
    {includeSpent synced : Bool} (hknown : RepliesKnown libs env w includeSpent)
    (hrefresh : walletRefresh libs env w includeSpent = some (synced, w')) :
    w'.addrManager.seed = w.addrManager.seed ∧ w'.Bound libs :=
  ⟨congrArg WalletAm.seed (addrManager_walletRefresh libs env hrefresh), h.refresh libs hknown hrefresh⟩

/-! ## Sending -/

/-- The marking loop keeps the seed. -/
theorem seed_markConsumed (heap : UInt64 → Byte) (w : Wallet) (consumed : UnspentOutputs) :
    (markConsumed heap w consumed).addrManager.seed = w.addrManager.seed := by
  unfold markConsumed
  generalize consumed.entries = l
  induction l generalizing w with
  | nil => rfl
  | cons elm rest ih => rw [List.foldl_cons, ih, (spentAddr_amMarkSpentAddress _ _ _).2]

/-- Every input of a transaction has a signature entry with the key to which its address commits. -/
def SignedByOwners (tx : Transaction) : Prop :=
  ∀ input ∈ tx.inputs, ∃ sig, edSignaturesFind tx.signatures input.address = some sig ∧
    input.address = addressOfPublicKey libs.sodium sig.pubKey

/-- A bound wallet signs a selection with the keys of its addresses. -/
theorem Wallet.Bound.signedByOwners {env : Env} {w : Wallet} (h : w.Bound libs) {dest : SendFundsOp}
    {tx : Transaction} {am : WalletAm}
    (hbuilt : BuiltFor libs env w dest (consumedOutputs w dest) tx am)
    (hvalid : txSignautresValid libs.sodium env.validHost tx = true) : SignedByOwners libs tx := by
  obtain ⟨essence, -, hsignatures⟩ := hbuilt.signatures_of_valid libs env
    (fun elm helm => (mem_of_selected helm).2.2) hvalid
  intro input hinput
  rw [hbuilt.inputs_eq] at hinput
  obtain ⟨elm, helm, id, _, rfl⟩ := (mem_walletBuildInputs_iff _ _).mp hinput
  rw [OutputId.address_txOutputId]
  refine ⟨signatureOf libs w.addrManager.seed essence elm, ?_, ?_⟩
  · rw [edSignaturesFind, InsertionTable.find_eq_some_iff, hsignatures]
    exact ⟨List.mem_map_of_mem helm, rfl⟩
  · exact h elm (mem_of_mem_consumedOutputs helm)

/-- A call of `wallet_send_funds` keeps the seed and the binding, and what it hands to the node is
signed by the owners of its inputs. -/
theorem Wallet.Bound.sendFunds {env : Env} {w : Wallet} (h : w.Bound libs) {dest : SendFundsOp}
    (hknown : RepliesKnown libs env w false) {outcome : SendOutcome}
    (hend : SendEnd libs env w dest outcome) :
    (outcome.wallet.addrManager.seed = w.addrManager.seed ∧ outcome.wallet.Bound libs) ∧
      ∀ submission ∈ outcome.submitted, SignedByOwners libs submission.tx := by
  cases hend with
  | refused => exact ⟨⟨rfl, h⟩, by simp⟩
  | insufficient _ hrefresh _ => exact ⟨h.refreshed libs hknown hrefresh, by simp⟩
  | invalid _ hrefresh _ _ hbuilt _ =>
    obtain ⟨hseed, hbound⟩ := h.refreshed libs hknown hrefresh
    refine ⟨⟨hbuilt.seed_eq.trans hseed, ?_⟩, by simp⟩
    unfold Wallet.Bound at hbound ⊢
    rwa [hbuilt.seed_eq]
  | submitted _ hrefresh _ _ hbuilt hvalid =>
    obtain ⟨hseed, hbound⟩ := h.refreshed libs hknown hrefresh
    refine ⟨⟨?_, ?_⟩, ?_⟩
    · rw [seed_markConsumed]
      exact hbuilt.seed_eq.trans hseed
    · unfold Wallet.Bound at hbound ⊢
      rw [seed_markConsumed, unspent_markConsumed, hbuilt.seed_eq]
      exact UnspentOutputs.boundBy_iff.mpr (UnspentOutputs.Each.foldl_setSpent _ hbound)
    · intro submission hsubmission
      rw [List.mem_singleton.mp hsubmission]
      exact hbound.signedByOwners libs hbuilt hvalid

/-! ## Runs from initialisation -/

/-- The condition on a step: the replies of its refresh list known addresses. -/
def StepKnown (w : Wallet) (op : Env × WalletOp) : Prop :=
  match op.2 with
  | .refresh includeSpent => RepliesKnown libs op.1 w includeSpent
  | .balance => RepliesKnown libs op.1 w false
  | .sendFunds _ => RepliesKnown libs op.1 w false
  | _ => True

/-- A step which meets the condition keeps the seed and the binding, and what it hands to the node
is signed by the owners of its inputs. -/
theorem Wallet.Bound.step {w w' : Wallet} (h : w.Bound libs) {op : Env × WalletOp}
    {out : List Submission} (hknown : StepKnown libs w op)
    (hstep : walletStep libs w op = some (w', out)) :
    (w'.addrManager.seed = w.addrManager.seed ∧ w'.Bound libs) ∧
      ∀ submission ∈ out, SignedByOwners libs submission.tx := by
  obtain ⟨env, op⟩ := op
  cases stepEnd_walletStep libs hstep with
  | refreshed hrefresh => exact ⟨h.refreshed libs hknown hrefresh, by simp⟩
  | balanced hrefresh => exact ⟨h.refreshed libs hknown hrefresh, by simp⟩
  | asked _ =>
    refine ⟨⟨seed_amGetAddress libs.sodium _ _, ?_⟩, by simp⟩
    unfold Wallet.Bound at h ⊢
    rwa [seed_amGetAddress]
  | sent hend => exact h.sendFunds libs hknown hend

/-- Setting up an entry removes none, and the address of its index has one afterwards. -/
theorem isSome_find_initEntry (seed : Seed) (firstUnspent : UInt64) (t : UnspentOutputs) (i : UInt64)
    (addr : Address) (h : (unspentOutputsFind t addr).isSome ∨ addr = addressGet libs.sodium seed i) :
    (unspentOutputsFind (initEntry libs seed firstUnspent t i) addr).isSome := by
  have hadd : (unspentOutputsFind
      (unspentOutputsAdd t (addressGet libs.sodium seed i) i outputIdsInit).2 addr).isSome := by
    unfold unspentOutputsFind at h ⊢
    rw [unspentOutputsAdd_snd, InsertionTable.find_insertNew, Option.isSome_or, Bool.or_eq_true]
    rcases h with hsome | rfl
    · exact Or.inl hsome
    · exact Or.inr (by simp)
  unfold initEntry
  dsimp only
  split
  · unfold unspentOutputsFind at hadd ⊢
    rw [unspentOutputsSetSpent, InsertionTable.find_modify]
    split <;> simpa using hadd
  · exact hadd

/-- The loop of the initialisation keeps a property of all entries which holds of each index with its
address. -/
theorem each_foldl_initEntry {belong : Address → UInt64 → Prop} {seed : Seed} (firstUnspent : UInt64)
    (indices : List UInt64) {t : UnspentOutputs} (h : t.Each belong)
    (hnew : ∀ i ∈ indices, belong (addressGet libs.sodium seed i) i) :
    (indices.foldl (initEntry libs seed firstUnspent) t).Each belong := by
  induction indices generalizing t with
  | nil => exact h
  | cons i rest ih =>
    refine ih ?_ fun j hj => hnew j (List.mem_cons_of_mem _ hj)
    have hadded := h.add (fun _ => hnew i List.mem_cons_self) outputIdsInit
    unfold initEntry
    dsimp only
    split
    · exact hadded.setSpent _ _
    · exact hadded

/-- The loop of the initialisation binds every entry and gives one to each of its indices. -/
theorem foldl_initEntry (seed : Seed) (firstUnspent : UInt64) (indices : List UInt64)
    {t : UnspentOutputs} (h : t.BoundBy (addressGet libs.sodium seed)) :
    (indices.foldl (initEntry libs seed firstUnspent) t).BoundBy (addressGet libs.sodium seed) ∧
      ∀ addr, (unspentOutputsFind t addr).isSome ∨ addr ∈ indices.map (addressGet libs.sodium seed) →
        (unspentOutputsFind (indices.foldl (initEntry libs seed firstUnspent) t) addr).isSome := by
  refine ⟨UnspentOutputs.boundBy_iff.mpr (each_foldl_initEntry libs firstUnspent indices h fun _ _ => rfl), ?_⟩
  clear h
  induction indices generalizing t with
  | nil => exact fun addr haddr => by simpa using haddr
  | cons i rest ih =>
    intro addr haddr
    apply ih
    rw [List.map_cons, List.mem_cons, ← or_assoc] at haddr
    rcases haddr with hhere | hrest
    · exact Or.inl (isSome_find_initEntry libs seed firstUnspent t i addr hhere)
    · exact Or.inr hrest

/-- The node answers only about addresses it was asked for. -/
def AnswersAsked (env : Env) (w : Wallet) (includeSpent : Bool) : Prop :=
  ∀ addrs, refreshAddresses libs env w includeSpent = some addrs →
    ∀ unspent ∈ (refreshReply libs env w addrs).2.entries, unspent.addr ∈ addrs.map AddressT.addr

/-- The wallet which the initialisation sets up is bound and knows all addresses it asks for. -/
theorem bound_walletInitLocal {url : List Byte} {port : UInt16} {seed : Seed}
    {lastAddr firstUnspent lastUnspent : UInt64} {w : Wallet}
    (h : walletInitLocal libs url port seed lastAddr firstUnspent lastUnspent = some w) :
    w.addrManager.seed = seed ∧ w.Bound libs ∧
      ∀ env, AnswersAsked libs env w true → RepliesKnown libs env w true := by
  obtain ⟨indices, hindices, hw⟩ := Option.map_eq_some_iff.mp h
  have hseed : w.addrManager.seed = seed := by rw [← hw]; rfl
  have hlast : w.addrManager.lastAddrIndex = lastAddr := by rw [← hw]
  have hunspent : w.unspent = indices.foldl (initEntry libs seed firstUnspent) unspentOutputsInit := by
    rw [← hw]
  obtain ⟨hbound, hsome⟩ := foldl_initEntry libs seed firstUnspent indices
    (UnspentOutputs.boundBy_iff.mpr (each_unspentOutputsInit _))
  refine ⟨hseed, ?_, fun env hasked addrs haddrs unspent hmem => Or.inl ?_⟩
  · unfold Wallet.Bound
    rw [hseed, hunspent]
    exact hbound
  · have hlist : refreshAddresses libs env w true = some (amAddressList libs.sodium w.addrManager indices) := by
      rw [refreshAddresses, if_pos rfl, amAddresses, hlast, hindices, Option.map_some]
    have haddr := hasked addrs haddrs unspent hmem
    rw [Option.some.inj (haddrs.symm.trans hlist), amAddressList, List.map_map, hseed] at haddr
    rw [hunspent]
    exact hsome _ (Or.inr haddr)

/-- From an initialised wallet on, every run whose replies list known addresses keeps each entry
under the address of its index, and hands to the node only transactions signed by the owners of
their inputs. -/
theorem entries_bound_along_known_replies {env : Env} {url : List Byte} {port : UInt16} {seed : Seed}
    {lastAddr firstUnspent lastUnspent : UInt64} {initial w : Wallet} {log : List Submission}
    (hinit : walletInit libs env url port seed lastAddr firstUnspent lastUnspent = some initial)
    (hasked : ∀ w, walletInitLocal libs url port seed lastAddr firstUnspent lastUnspent = some w →
      AnswersAsked libs env w true)
    (hrun : Run (walletStep libs) (StepKnown libs) initial w log) :
    (∀ elm ∈ w.unspent.entries, elm.addr = addressGet libs.sodium seed elm.addrIndex) ∧
      ∀ submission ∈ log, SignedByOwners libs submission.tx := by
  obtain ⟨start, hlocal, hrefreshed⟩ := Option.bind_eq_some_iff.mp hinit
  obtain ⟨result, hrefresh, rfl⟩ := Option.map_eq_some_iff.mp hrefreshed
  obtain ⟨hseed, hbound, hknown⟩ := bound_walletInitLocal libs hlocal
  have hinitial : result.2.addrManager.seed = seed ∧ result.2.Bound libs := by
    obtain ⟨hsame, hnext⟩ := hbound.refreshed libs (hknown env (hasked start hlocal)) hrefresh
    exact ⟨hsame.trans hseed, hnext⟩
  have hinvariant : (w.addrManager.seed = seed ∧ w.Bound libs) ∧
      ∀ submission ∈ log, SignedByOwners libs submission.tx := by
    apply Run.invariant ⟨hinitial, by simp⟩ ?_ hrun
    intro s s' op log out hs hmeets hstep
    obtain ⟨⟨hsame, hnext⟩, hsigned⟩ := hs.1.2.step libs hmeets hstep
    refine ⟨⟨hsame.trans hs.1.1, hnext⟩, fun submission hsubmission => ?_⟩
    rcases List.mem_append.mp hsubmission with hold | hnew
    · exact hs.2 submission hold
    · exact hsigned submission hnew
  obtain ⟨⟨hfinal, hentries⟩, hsigned⟩ := hinvariant
  unfold Wallet.Bound at hentries
  rw [hfinal] at hentries
  exact ⟨hentries, hsigned⟩

/-- The address of index 1 in the small wallet. -/
def freshAddress : Address := addressGet transparentSodium (Bytes.zero 32) 1

/-- The text of a reply which lists the address of index 1 alone. -/
def freshReply : List Byte :=
  cText "\x7b\"unspent_outputs\":[\x7b\"address\":\"" ++ base58Encode freshAddress.val ++
    cText "\"\x7d]\x7d"

/-- The libraries with a parser which knows this reply. -/
def freshLibraries : Libraries :=
  sampleLibraries [(freshReply, .object [("unspent_outputs",
    .array [.object [("address", .string (base58Encode freshAddress.val))]])])]

/-- A node which answers with this reply. -/
def freshNode : Env := { unreachable with node := fun _ => some freshReply }

/-- The small wallet after it handed out the address of index 1. -/
def freshWallet : Wallet := (walletNewReceiveAddress freshLibraries (smallWallet outputIdsInit)).1

/-- The small wallet is an initialised one. -/
theorem walletInit_small :
    walletInit freshLibraries unreachable (cText "http://node/") 0 (Bytes.zero 32) 0 0 0 =
      some (smallWallet outputIdsInit) := by
  decide

/-- A node which cannot be reached answers only about addresses it was asked for. -/
theorem answersAsked_unreachable (libs : Libraries) (w : Wallet) (includeSpent : Bool) :
    AnswersAsked libs unreachable w includeSpent := by
  intro addrs _ unspent hunspent
  have hempty : (refreshReply libs unreachable w addrs).2.entries = [] := by
    unfold refreshReply getUnspentOutputs unreachable
    split <;> rfl
  rw [hempty] at hunspent
  simp at hunspent

/-- The node with the five tokens answers about the address it is asked for, which is known. -/
theorem repliesKnown_fiveNode : RepliesKnown fiveLibraries (fiveNode 0) oneAddress false := by
  intro addrs hother unspent hunspent
  rw [← Option.some.inj (refreshAddresses_oneAddress.symm.trans hother),
    refreshReply_fiveNode (Or.inl rfl) _ (by decide)] at hunspent
  revert hunspent unspent
  decide

/-- After a payment out of the five tokens the entries are bound, and the owners have signed it. -/
theorem entries_bound_along_known_replies_five :
    (∀ elm ∈ ((payReported 3).get payReportedThree_isSome).wallet.unspent.entries,
        elm.addr = zeroSeedAddress elm.addrIndex) ∧
      ∀ submission ∈ ((payReported 3).get payReportedThree_isSome).submitted,
        SignedByOwners fiveLibraries submission.tx :=
  entries_bound_along_known_replies fiveLibraries walletInit_oneAddress
    (fun w _ => answersAsked_unreachable _ w true)
    (Run.single (show StepKnown fiveLibraries oneAddress (fiveNode 0, .sendFunds (plainRequest 3)) from
      repliesKnown_fiveNode) (walletStep_payReported payReportedThree_isSome))

/-- The small wallet after the reply about its fresh address. -/
def misplacedWallet : Option (Bool × Wallet) := walletRefresh freshLibraries freshNode freshWallet false

/-- The refresh of the fresh address returns. -/
theorem misplacedWallet_isSome : misplacedWallet.isSome := by decide +kernel

/-- The node of a step answers only about addresses it was asked for. -/
def StepAsked (w : Wallet) (op : Env × WalletOp) : Prop :=
  match op.2 with
  | .refresh includeSpent => AnswersAsked libs op.1 w includeSpent
  | .balance => AnswersAsked libs op.1 w false
  | .sendFunds _ => AnswersAsked libs op.1 w false
  | _ => True

/-- The first reply about a fresh address gives its entry index 0. -/
theorem fresh_address_misplaced :
    ¬ ∀ (libs : Libraries) (env : Env) (url : List Byte) (port : UInt16) (seed : Seed)
      (lastAddr firstUnspent lastUnspent : UInt64) (initial w : Wallet) (log : List Submission),
      firstUnspent ≤ lastAddr →
        walletInit libs env url port seed lastAddr firstUnspent lastUnspent = some initial →
        (∀ w, walletInitLocal libs url port seed lastAddr firstUnspent lastUnspent = some w →
          AnswersAsked libs env w true) →
        Run (walletStep libs) (StepAsked libs) initial w log →
          ∀ elm ∈ w.unspent.entries, elm.addr = addressGet libs.sodium seed elm.addrIndex := by
  intro h
  have haddrs : refreshAddresses freshLibraries freshNode freshWallet false =
      some [⟨0, addressGet transparentSodium (Bytes.zero 32) 0⟩, ⟨1, freshAddress⟩] := by decide
  have hasked : AnswersAsked freshLibraries freshNode freshWallet false := by
    intro addrs hother unspent hunspent
    rw [← Option.some.inj (haddrs.symm.trans hother)] at hunspent ⊢
    revert hunspent unspent
    decide +kernel
  have hstep : walletStep freshLibraries freshWallet (freshNode, .refresh false) =
      some ((misplacedWallet.get misplacedWallet_isSome).2, []) := by
    have hrefresh : walletRefresh freshLibraries freshNode freshWallet false =
        some (misplacedWallet.get misplacedWallet_isSome) :=
      (Option.some_get misplacedWallet_isSome).symm
    simp only [walletStep, hrefresh, Option.map_some]
  have hrun : Run (walletStep freshLibraries) (StepAsked freshLibraries) (smallWallet outputIdsInit)
      freshWallet [] :=
    Run.single (show StepAsked freshLibraries (smallWallet outputIdsInit)
      (unreachable, .newReceiveAddress) from trivial) rfl
  have hmisplaced := h freshLibraries unreachable (cText "http://node/") 0 (Bytes.zero 32) 0 0 0
    (smallWallet outputIdsInit) _ _ (UInt64.le_refl _) walletInit_small
    (fun w _ => answersAsked_unreachable _ w true)
    (.next hrun (show StepAsked freshLibraries freshWallet (freshNode, .refresh false) from hasked) hstep)
  revert hmisplaced
  decide +kernel

end Goshimmer
